import ProtocolExplorer.Lib.Transition
import ProtocolExplorer.Finality.Watcher
import ProtocolExplorer.Indexer.InsertEvents
import ProtocolExplorer.Valuator.Passes

/-!
# What the cursors may skip

The candidates of a pass are read before it prices anything, the frontier after it has
flushed.  An event finalized in between is not a candidate, yet the frontier counts it and
everything finalized later; when the pass outlasts the lookback, the new floor lies past
the event and no later pass scans it.

The system interleaves inserts, finality iterations, other writers of outcomes and any
number of passes, cut at every statement.

* `Progress` — what a step may do to the waiting events: some get an outcome, some are
  stamped with the current clock;
* `sound_step` — the step lemma;
* `cursor_skips_nothing` — **in every run whose advances leave the events finalized during
  the pass within the lookback, every waiting event is scanned by the next pass**;
* `latecomer_is_skipped` — a schedule in which an event finalized during a long pass is
  never scanned again.
-/

set_option autoImplicit false

namespace ProtocolExplorer.Valuator

open ProtocolExplorer.Lib
open ProtocolExplorer.Store
open ProtocolExplorer.Indexer
open ProtocolExplorer.Finality

/-! ## The system -/

/-- A pass between its fetch and its last flush. -/
structure RunningPass where
  /-- The clock of the candidate query. -/
  fetchedAt : Timestamp
  remaining : List RawEvent
  buffers : BulkBuffers
  minUnresolved : Option Timestamp
  /-- A flush has begun and not ended. -/
  flushing : Bool

/-- A pass that has read its frontier. -/
structure FinishedPass where
  fetchedAt : Timestamp
  minUnresolved : Option Timestamp
  frontier : Option Timestamp

/-- Where a pass stands between two statements. -/
inductive PassPhase where
  | reading (watermark : Timestamp)
  | started (floor : Timestamp)
  | running (run : RunningPass)
  | finished (run : FinishedPass)

structure Worker where
  key : PassKey
  phase : PassPhase

structure ValuatorSystem where
  clock : Timestamp
  db : Db
  worker : ℕ → Option Worker

inductive ValuatorAction where
  | tick (elapsed : ℕ)
  | insert (rows : NumberedRows)
  | finality (latestTs finalizedTs : ℤ)
  /-- Another writer of outcomes: the seed pass, or a pass that includes tentative rows. -/
  | record (valuations : List ValuationRow) (attempts : List AttemptRow)
  | begin (w : ℕ) (key : PassKey)
  | checkValuations (w : ℕ)
  | fetch (w : ℕ)
  | price (w : ℕ) (position : ℕ) (results : PricingResults)
  | flush (w : ℕ)
  | readFrontier (w : ℕ)
  | advance (w : ℕ)
  | abort (w : ℕ)

/-- `CONCURRENCY` of the LPT pass; the other passes price one event at a time. -/
def pricesInFlight : PassName → ℕ
  | .LPT => 14
  | _ => 1

/-- The loop body on the candidate at a position: record its result, then `maybe_flush`. -/
def RunningPass.price (run : RunningPass) (key : PassKey) (e : RawEvent) (position : ℕ)
    (results : PricingResults) : RunningPass :=
  let recorded := recordEvent key.2 key.1 results e run.buffers
  { run with
    remaining := run.remaining.eraseIdx position
    buffers := recorded.1
    minUnresolved := pin recorded.2 e.finalizedAt run.minUnresolved
    flushing := recorded.1.full }

namespace PassPhase

/-- One statement or loop body of a pass, with the database it leaves. -/
def readCursor (key : PassKey) (db : Db) : PassPhase :=
  match db.valuatorCursors.lookup key with
  | none => .started 0
  | some cursor => .reading cursor.watermark

def checkValuations (key : PassKey) (db : Db) : PassPhase → Option PassPhase
  | .reading watermark =>
      some (.started (if hasValuations key.1 db then watermark - defaultLookback else 0))
  | _ => none

def fetch (key : PassKey) (clock : Timestamp) (db : Db) : PassPhase → Option PassPhase
  | .started floor =>
      some (.running
        { fetchedAt := clock
          remaining := fetchCandidatesOf key.2 key.1 false floor db
          buffers := BulkBuffers.new
          minUnresolved := none
          flushing := false })
  | _ => none

def price (key : PassKey) (position : ℕ) (results : PricingResults) :
    PassPhase → Option PassPhase
  | .running run =>
      if run.flushing = false ∧ position < pricesInFlight key.2 then
        run.remaining[position]?.map fun e => .running (run.price key e position results)
      else none
  | _ => none

def flush (db : Db) : PassPhase → Option (PassPhase × Db)
  | .running run =>
      if run.flushing = true ∨ run.remaining = [] then
        match flushStatement run.buffers db with
        | some (buffers, written) => some (.running { run with buffers }, written)
        | none => if run.flushing then some (.running { run with flushing := false }, db) else none
      else none
  | _ => none

theorem price_cases {key : PassKey} {position : ℕ} {results : PricingResults}
    {phase phase' : PassPhase} (priced : phase.price key position results = some phase') :
    ∃ run e, phase = .running run ∧ run.remaining[position]? = some e ∧
      phase' = .running (run.price key e position results) := by
  cases phase with
  | running run =>
      simp only [price, Option.ite_none_right_eq_some, Option.map_eq_some_iff] at priced
      obtain ⟨_, e, next, rfl⟩ := priced
      exact ⟨run, e, rfl, next, rfl⟩
  | reading | started | finished => cases priced

/-- A flush step executes a statement, or ends the flush. -/
theorem flush_cases {db db' : Db} {phase phase' : PassPhase}
    (flushed : phase.flush db = some (phase', db')) :
    ∃ run, phase = .running run ∧
      ((∃ buffers, flushStatement run.buffers db = some (buffers, db') ∧
          phase' = .running { run with buffers }) ∨
        (db' = db ∧ phase' = .running { run with flushing := false })) := by
  cases phase with
  | running run =>
      simp only [flush, Option.ite_none_right_eq_some] at flushed
      obtain ⟨_, executed⟩ := flushed
      split at executed
      · next buffers written statement =>
          cases executed
          exact ⟨run, rfl, Or.inl ⟨buffers, statement, rfl⟩⟩
      · simp only [Option.ite_none_right_eq_some] at executed
        obtain ⟨_, done⟩ := executed
        cases done
        exact ⟨run, rfl, Or.inr ⟨rfl, rfl⟩⟩
  | reading | started | finished => cases flushed

def readFrontier (key : PassKey) (db : Db) : PassPhase → Option PassPhase
  | .running run =>
      if run.remaining = [] ∧ (flushStatement run.buffers db).isNone then
        some (.finished ⟨run.fetchedAt, run.minUnresolved, frontierOf key.2 db⟩)
      else none
  | _ => none

def advance (key : PassKey) (db : Db) : PassPhase → Option Db
  | .finished run => some (Valuator.advance key run.minUnresolved run.frontier false db)
  | _ => none

end PassPhase

namespace Worker

/-- The candidates not priced yet. -/
def remaining (worker : Worker) : List RawEvent :=
  match worker.phase with
  | .running run => run.remaining
  | _ => []

/-- A pass that is about to advance. -/
def finishedRun (worker : Worker) : Option FinishedPass :=
  match worker.phase with
  | .finished run => some run
  | _ => none

end Worker

namespace ValuatorSystem

def start : ValuatorSystem := ⟨0, Db.empty, fun _ => none⟩

/-- Put a worker into a phase. -/
def enter (s : ValuatorSystem) (w : ℕ) (key : PassKey) (phase : PassPhase) : ValuatorSystem :=
  { s with worker := Function.update s.worker w (some ⟨key, phase⟩) }

/-- End a worker's pass. -/
def leave (s : ValuatorSystem) (w : ℕ) : ValuatorSystem :=
  { s with worker := Function.update s.worker w none }

theorem worker_enter {s : ValuatorSystem} {w w' : ℕ} {key : PassKey} {phase : PassPhase}
    {worker : Worker} (present : worker ∈ (s.enter w key phase).worker w') :
    worker ∈ s.worker w' ∨ worker = ⟨key, phase⟩ := by
  by_cases same : w' = w
  · simp only [enter, same, Function.update_self, Option.mem_def, Option.some.injEq] at present
    exact Or.inr present.symm
  · simp only [enter, Function.update_of_ne same] at present
    exact Or.inl present

theorem worker_leave {s : ValuatorSystem} {w w' : ℕ} {worker : Worker}
    (present : worker ∈ (s.leave w).worker w') : worker ∈ s.worker w' := by
  by_cases same : w' = w
  · simp only [leave, same, Function.update_self] at present
    cases present
  · simpa only [leave, Function.update_of_ne same] using present

def step (s : ValuatorSystem) : ValuatorAction → Option ValuatorSystem
  | .tick elapsed => some { s with clock := s.clock + elapsed }
  | .insert rows =>
      if freshIds rows s.db.rawProtocolEvents then
        some { s with
          db := { s.db with rawProtocolEvents := insertEvents rows s.db.rawProtocolEvents } }
      else none
  | .finality latestTs finalizedTs =>
      some { s with db := runOnce s.clock latestTs finalizedTs s.db }
  | .record valuations attempts =>
      some { s with db := insertAttempts attempts (insertValuations valuations s.db) }
  | .begin w key =>
      if (s.worker w).isNone then some (s.enter w key (.readCursor key s.db)) else none
  | .checkValuations w => do
      let worker ← s.worker w
      let phase ← worker.phase.checkValuations worker.key s.db
      return s.enter w worker.key phase
  | .fetch w => do
      let worker ← s.worker w
      let phase ← worker.phase.fetch worker.key s.clock s.db
      return s.enter w worker.key phase
  | .price w position results => do
      let worker ← s.worker w
      let phase ← worker.phase.price worker.key position results
      return s.enter w worker.key phase
  | .flush w => do
      let worker ← s.worker w
      let (phase, db) ← worker.phase.flush s.db
      return { s with db := db }.enter w worker.key phase
  | .readFrontier w => do
      let worker ← s.worker w
      let phase ← worker.phase.readFrontier worker.key s.db
      return s.enter w worker.key phase
  | .advance w => do
      let worker ← s.worker w
      let db ← worker.phase.advance worker.key s.db
      return { s with db := db }.leave w
  | .abort w => some (s.leave w)

/-! ## The law and its condition -/

/-- The finalized events of a pass's universe that have no outcome yet. -/
def waiting (key : PassKey) (db : Db) : List RawEvent :=
  db.rawProtocolEvents.filter fun e =>
    inUniverse key.2 e && decide (e.finality = .finalized) && needsWork key.2 key.1 db e

/-- Every waiting event of every pass lies at or above the scan floor, and the next pass
fetches it. -/
def NeverSkips (s : ValuatorSystem) : Prop :=
  ∀ key, ∀ e ∈ waiting key s.db,
    (∃ stamp ∈ e.finalizedAt, scanFloor key.1 key defaultLookback false s.db ≤ stamp) ∧
      e ∈ fetchCandidatesOf key.2 key.1 false
        (scanFloor key.1 key defaultLookback false s.db) s.db

/-- An advance that leaves no waiting event behind that was finalized since the fetch: the
frontier, or an event left for a retry, is at most the lookback newer. -/
def latecomersInReach (s : ValuatorSystem) (worker : Worker) (run : FinishedPass) : Prop :=
  ∀ e ∈ waiting worker.key s.db, ∀ stamp ∈ e.finalizedAt, run.fetchedAt ≤ stamp →
    (∀ newest ∈ run.frontier, newest - defaultLookback ≤ stamp) ∨
      ∃ oldest ∈ run.minUnresolved, oldest - defaultLookback ≤ stamp

/-- The steps the law needs: results are recorded under a version their pass looks for, and
advances keep latecomers in reach. -/
def keepsInReach (s : ValuatorSystem) : ValuatorAction → Prop
  | .price w position results =>
      ∀ worker ∈ s.worker w, ∀ e ∈ worker.remaining[position]?,
        recordedUnder worker.key.2 worker.key.1 results e
  | .advance w => ∀ worker ∈ s.worker w, ∀ run ∈ worker.finishedRun, latecomersInReach s worker run
  | _ => True

instance (s : ValuatorSystem) (worker : Worker) (run : FinishedPass) :
    Decidable (latecomersInReach s worker run) :=
  inferInstanceAs (Decidable (∀ e ∈ waiting worker.key s.db, ∀ stamp ∈ e.finalizedAt,
    run.fetchedAt ≤ stamp → (∀ newest ∈ run.frontier, newest - defaultLookback ≤ stamp) ∨
      ∃ oldest ∈ run.minUnresolved, oldest - defaultLookback ≤ stamp))

instance decidableKeepsInReach (s : ValuatorSystem) : ∀ a, Decidable (keepsInReach s a)
  | .price w position results =>
      inferInstanceAs (Decidable (∀ worker ∈ s.worker w, ∀ e ∈ worker.remaining[position]?,
        recordedUnder worker.key.2 worker.key.1 results e))
  | .advance w =>
      inferInstanceAs (Decidable (∀ worker ∈ s.worker w, ∀ run ∈ worker.finishedRun,
        latecomersInReach s worker run))
  | .tick _ | .insert _ | .finality .. | .record .. | .begin .. | .checkValuations _
  | .fetch _ | .flush _ | .readFrontier _ | .abort _ => inferInstanceAs (Decidable True)

/-! ## The invariant -/

/-- A floor no waiting event lies below. -/
structure FloorHolds (s : ValuatorSystem) (key : PassKey) (floor : Timestamp) : Prop where
  reached : floor ≤ s.clock
  below : ∀ e ∈ waiting key s.db, ∀ stamp ∈ e.finalizedAt, floor ≤ stamp

/-- The event's own stamp bounds the oldest unresolved one from above. -/
def Pinned (minUnresolved : Option Timestamp) (e : RawEvent) : Prop :=
  ∃ oldest ∈ minUnresolved, ∀ stamp ∈ e.finalizedAt, oldest ≤ stamp

/-- What a running pass still owes a waiting event, unless it was finalized since the
fetch. -/
structure RunHolds (s : ValuatorSystem) (key : PassKey) (run : RunningPass) : Prop where
  reached : run.fetchedAt ≤ s.clock
  owed : ∀ e ∈ waiting key s.db,
    e ∈ run.remaining ∨ Pinned run.minUnresolved e ∨
      Settles run.buffers.valuations key.2 key.1 s.db e ∨
        ∀ stamp ∈ e.finalizedAt, run.fetchedAt ≤ stamp

structure FinishedHolds (s : ValuatorSystem) (key : PassKey) (run : FinishedPass) : Prop where
  fetched : run.fetchedAt ≤ s.clock
  reached : ∀ newest ∈ run.frontier, newest ≤ s.clock
  owed : ∀ e ∈ waiting key s.db,
    Pinned run.minUnresolved e ∨ ∀ stamp ∈ e.finalizedAt, run.fetchedAt ≤ stamp

def PhaseHolds (s : ValuatorSystem) (key : PassKey) : PassPhase → Prop
  | .reading watermark => FloorHolds s key (watermark - defaultLookback)
  | .started floor => FloorHolds s key floor
  | .running run => RunHolds s key run
  | .finished run => FinishedHolds s key run

/-- Finalized rows carry a stamp of the past; cursors and passes respect the waiting
events. -/
structure Sound (s : ValuatorSystem) : Prop where
  clock : 0 ≤ s.clock
  stamped : ∀ e ∈ s.db.rawProtocolEvents, e.finality = .finalized →
    ∃ stamp ∈ e.finalizedAt, 0 ≤ stamp ∧ stamp ≤ s.clock
  cursors : ∀ key, ∀ cursor ∈ s.db.valuatorCursors.lookup key,
    FloorHolds s key (cursor.watermark - defaultLookback)
  workers : ∀ w, ∀ worker ∈ s.worker w, PhaseHolds s worker.key worker.phase

/-! ## What a step may do to the waiting events -/

/-- Time passes, outcomes accumulate, and a newly waiting event carries the current clock. -/
structure Progress (s s' : ValuatorSystem) : Prop where
  clock : s.clock ≤ s'.clock
  outcomes : ∀ versions asset eventId, hasOutcome versions asset s.db eventId = true →
    hasOutcome versions asset s'.db eventId = true
  waiting : ∀ key, ∀ e ∈ waiting key s'.db, e ∈ waiting key s.db ∨ e.finalizedAt = some s.clock

theorem mem_waiting {key : PassKey} {db : Db} {e : RawEvent} :
    e ∈ waiting key db ↔ e ∈ db.rawProtocolEvents ∧ inUniverse key.2 e = true ∧
      e.finality = .finalized ∧ needsWork key.2 key.1 db e = true := by
  simp [waiting, and_assoc]

variable {s s' : ValuatorSystem} {key : PassKey}

/-- Storing outcomes only removes waiting events. -/
theorem waiting_of_outcomesGrow {db db' : Db} (grows : OutcomesGrow db db') {e : RawEvent}
    (member : e ∈ waiting key db') : e ∈ waiting key db := by
  obtain ⟨stored, about, isFinal, unsettled⟩ := mem_waiting.mp member
  exact mem_waiting.mpr
    ⟨grows.events ▸ stored, about, isFinal, needsWork_antitone grows.outcomes unsettled⟩

theorem FloorHolds.mono {floor : Timestamp} (holds : FloorHolds s key floor)
    (progress : Progress s s') : FloorHolds s' key floor where
  reached := le_trans holds.reached progress.clock
  below e member stamp stamped := by
    rcases progress.waiting key e member with earlier | now
    · exact holds.below e earlier stamp stamped
    · rw [now] at stamped
      exact Option.mem_some.mp stamped ▸ holds.reached

theorem RunHolds.mono {run : RunningPass} (holds : RunHolds s key run)
    (progress : Progress s s') : RunHolds s' key run where
  reached := le_trans holds.reached progress.clock
  owed e member := by
    rcases progress.waiting key e member with earlier | now
    · refine (holds.owed e earlier).imp_right (Or.imp_right (Or.imp_left fun settles => ?_))
      exact settles.mono (fun _ row => row) progress.outcomes
    · refine Or.inr (Or.inr (Or.inr fun stamp stamped => ?_))
      rw [now] at stamped
      exact Option.mem_some.mp stamped ▸ holds.reached

theorem FinishedHolds.mono {run : FinishedPass} (holds : FinishedHolds s key run)
    (progress : Progress s s') : FinishedHolds s' key run where
  fetched := le_trans holds.fetched progress.clock
  reached newest read := le_trans (holds.reached newest read) progress.clock
  owed e member := by
    rcases progress.waiting key e member with earlier | now
    · exact holds.owed e earlier
    · refine Or.inr fun stamp stamped => ?_
      rw [now] at stamped
      exact Option.mem_some.mp stamped ▸ holds.fetched

theorem PhaseHolds.mono {phase : PassPhase} (holds : PhaseHolds s key phase)
    (progress : Progress s s') : PhaseHolds s' key phase := by
  cases phase with
  | reading watermark => exact FloorHolds.mono holds progress
  | started floor => exact FloorHolds.mono holds progress
  | running run => exact RunHolds.mono holds progress
  | finished run => exact FinishedHolds.mono holds progress

theorem progress_of_outcomesGrow {db' : Db} (grows : OutcomesGrow s.db db') :
    Progress s { s with db := db' } where
  clock := le_refl _
  outcomes := grows.outcomes
  waiting _ _ member := Or.inl (waiting_of_outcomesGrow grows member)

/-- The parts of the invariant a step has to argue for. -/
theorem Sound.mono (sound : Sound s) (progress : Progress s s')
    (stamped : ∀ e ∈ s'.db.rawProtocolEvents, e.finality = .finalized →
      e ∈ s.db.rawProtocolEvents ∨ e.finalizedAt = some s.clock)
    (cursors : ∀ key, ∀ cursor ∈ s'.db.valuatorCursors.lookup key,
      cursor ∈ s.db.valuatorCursors.lookup key ∨
        FloorHolds s' key (cursor.watermark - defaultLookback))
    (workers : ∀ w, ∀ worker ∈ s'.worker w,
      worker ∈ s.worker w ∨ PhaseHolds s' worker.key worker.phase) : Sound s' where
  clock := le_trans sound.clock progress.clock
  stamped e member isFinal := by
    rcases stamped e member isFinal with earlier | now
    · obtain ⟨stamp, carried, positive, past⟩ := sound.stamped e earlier isFinal
      exact ⟨stamp, carried, positive, le_trans past progress.clock⟩
    · exact ⟨s.clock, now, sound.clock, progress.clock⟩
  cursors key cursor stored :=
    (cursors key cursor stored).elim (fun earlier => (sound.cursors key cursor earlier).mono progress)
      id
  workers w worker present :=
    (workers w worker present).elim (fun earlier => (sound.workers w worker earlier).mono progress)
      id

/-! ## Steps of the environment -/

theorem sound_tick (sound : Sound s) (elapsed : ℕ) :
    Sound { s with clock := s.clock + elapsed } :=
  sound.mono ⟨by simp, fun _ _ _ known => known, fun _ _ member => Or.inl member⟩
    (fun _ member _ => Or.inl member) (fun _ _ stored => Or.inl stored)
    (fun _ _ present => Or.inl present)

theorem sound_insert (sound : Sound s) (rows : NumberedRows) :
    Sound { s with
      db := { s.db with rawProtocolEvents := insertEvents rows s.db.rawProtocolEvents } } := by
  have earlier : ∀ e ∈ insertEvents rows s.db.rawProtocolEvents, e.finality = .finalized →
      e ∈ s.db.rawProtocolEvents := by
    intro e member isFinal
    rcases mem_insertEvents member with old | ⟨row, _, rfl⟩
    · exact old
    · cases isFinal
  refine sound.mono ⟨le_refl _, fun _ _ _ known => known, fun key e member => Or.inl ?_⟩
    (fun e member isFinal => Or.inl (earlier e member isFinal)) (fun _ _ stored => Or.inl stored)
    (fun _ _ present => Or.inl present)
  obtain ⟨stored, about, isFinal, unsettled⟩ := mem_waiting.mp member
  exact mem_waiting.mpr ⟨earlier e stored isFinal, about, isFinal, unsettled⟩

theorem sound_finality (sound : Sound s) (latestTs finalizedTs : ℤ) :
    Sound { s with db := runOnce s.clock latestTs finalizedTs s.db } := by
  have marked : ∀ e ∈ (runOnce s.clock latestTs finalizedTs s.db).rawProtocolEvents,
      e.finality = .finalized → e ∈ s.db.rawProtocolEvents ∨ e.finalizedAt = some s.clock := by
    intro e member isFinal
    rw [runOnce_rawProtocolEvents] at member
    obtain ⟨old, stored, rfl⟩ := List.mem_map.mp member
    rcases finalized_markRow isFinal with same | ⟨_, _, _, stamped⟩
    · exact Or.inl (same.symm ▸ stored)
    · exact Or.inr (by rw [stamped])
  refine sound.mono ⟨le_refl _, fun _ _ _ known => known, fun key e member => ?_⟩ marked
    (fun _ _ stored => Or.inl stored) (fun _ _ present => Or.inl present)
  obtain ⟨stored, about, isFinal, unsettled⟩ := mem_waiting.mp member
  exact (marked e stored isFinal).imp_left fun earlier =>
    mem_waiting.mpr ⟨earlier, about, isFinal, unsettled⟩

theorem sound_outcomes (sound : Sound s) {db' : Db} (grows : OutcomesGrow s.db db') :
    Sound { s with db := db' } :=
  sound.mono (progress_of_outcomesGrow grows)
    (fun _ member _ => Or.inl (grows.events ▸ member))
    (fun _ _ stored => Or.inl (grows.cursors ▸ stored)) (fun _ _ present => Or.inl present)

/-! ## Steps of a pass -/

theorem sound_enter (sound : Sound s) {phase : PassPhase} (holds : PhaseHolds s key phase)
    (w : ℕ) : Sound (s.enter w key phase) := by
  have unmoved : Progress s (s.enter w key phase) :=
    ⟨le_refl _, fun _ _ _ known => known, fun _ _ member => Or.inl member⟩
  refine sound.mono unmoved (fun _ member _ => Or.inl member) (fun _ _ stored => Or.inl stored)
    fun w' worker present => ?_
  rcases worker_enter present with earlier | rfl
  · exact Or.inl earlier
  · exact Or.inr (holds.mono unmoved)

theorem sound_running (sound : Sound s) {run : RunningPass} (holds : RunHolds s key run)
    (w : ℕ) : Sound (s.enter w key (.running run)) :=
  sound_enter sound (show PhaseHolds s key (.running run) from holds) w

theorem sound_leave (sound : Sound s) (w : ℕ) : Sound (s.leave w) :=
  sound.mono ⟨le_refl _, fun _ _ _ known => known, fun _ _ member => Or.inl member⟩
    (fun _ member _ => Or.inl member) (fun _ _ stored => Or.inl stored)
    (fun _ _ present => Or.inl (worker_leave present))

/-- The epoch is a floor. -/
theorem floorHolds_zero (sound : Sound s) (key : PassKey) : FloorHolds s key 0 where
  reached := sound.clock
  below e member stamp stamped := by
    obtain ⟨stored, _, isFinal, _⟩ := mem_waiting.mp member
    obtain ⟨stamp', carried, positive, _⟩ := sound.stamped e stored isFinal
    exact Option.mem_unique carried stamped ▸ positive

theorem holds_readCursor (sound : Sound s) (key : PassKey) :
    PhaseHolds s key (.readCursor key s.db) := by
  unfold PassPhase.readCursor
  split
  · exact floorHolds_zero sound key
  · next cursor stored => exact sound.cursors key cursor stored

theorem holds_checkValuations (sound : Sound s) {phase phase' : PassPhase}
    (holds : PhaseHolds s key phase) (checked : phase.checkValuations key s.db = some phase') :
    PhaseHolds s key phase' := by
  cases phase with
  | reading watermark =>
      cases checked
      show FloorHolds s key (if _ then _ else _)
      split
      · exact holds
      · exact floorHolds_zero sound key
  | started | running | finished => cases checked

/-- With nothing in between, the two reads of a pass's start compute `scan_floor`. -/
theorem readCursor_eq_scanFloor (key : PassKey) (db : Db) :
    PassPhase.readCursor key db = .started (scanFloor key.1 key defaultLookback false db) ∨
      (PassPhase.readCursor key db).checkValuations key db =
        some (.started (scanFloor key.1 key defaultLookback false db)) := by
  unfold PassPhase.readCursor scanFloor
  cases db.valuatorCursors.lookup key with
  | none => exact Or.inl rfl
  | some cursor => exact Or.inr rfl

/-- A floor that holds lets the candidate query see every waiting event. -/
theorem mem_fetchCandidatesOf {floor : Timestamp} {e : RawEvent} (sound : Sound s)
    (holds : FloorHolds s key floor) (member : e ∈ waiting key s.db) :
    (∃ stamp ∈ e.finalizedAt, floor ≤ stamp) ∧
      e ∈ fetchCandidatesOf key.2 key.1 false floor s.db := by
  obtain ⟨stored, about, isFinal, unsettled⟩ := mem_waiting.mp member
  obtain ⟨stamp, carried, _, _⟩ := sound.stamped e stored isFinal
  have above := holds.below e member stamp carried
  refine ⟨⟨stamp, carried, above⟩, mem_orderBy.mpr (List.mem_filter.mpr ⟨stored, ?_⟩)⟩
  have canonical : e.isCanonical = true := by
    simp only [inUniverse, Bool.and_eq_true] at about
    exact about.1.2
  simp [about, canonical, isFinal, unsettled, Option.mem_def.mp carried, above]

theorem holds_fetch (sound : Sound s) {phase phase' : PassPhase}
    (holds : PhaseHolds s key phase) (fetched : phase.fetch key s.clock s.db = some phase') :
    PhaseHolds s key phase' := by
  cases phase with
  | started floor =>
      cases fetched
      exact ⟨le_refl _, fun e member => Or.inl (mem_fetchCandidatesOf sound holds member).2⟩
  | reading | running | finished => cases fetched

/-- Pins only move down. -/
theorem Pinned.pin {minUnresolved : Option Timestamp} {e : RawEvent}
    (pinned : Pinned minUnresolved e) (transient : Bool) (finalizedAt : Option Timestamp) :
    Pinned (pin transient finalizedAt minUnresolved) e := by
  obtain ⟨oldest, read, older⟩ := pinned
  cases read
  cases transient with
  | false => exact ⟨oldest, rfl, older⟩
  | true =>
      cases finalizedAt with
      | none => exact ⟨oldest, rfl, older⟩
      | some stamp => exact ⟨min oldest stamp, rfl, fun own carried =>
          le_trans (min_le_left _ _) (older own carried)⟩

/-- An event left for a retry is pinned. -/
theorem pinned_pin {e : RawEvent} {stamp : Timestamp} (carried : e.finalizedAt = some stamp)
    (minUnresolved : Option Timestamp) : Pinned (pin true e.finalizedAt minUnresolved) e := by
  rw [carried]
  refine ⟨_, rfl, fun own stamped => ?_⟩
  obtain rfl := Option.mem_unique carried stamped
  cases minUnresolved with
  | none => exact le_refl stamp
  | some oldest => exact min_le_right oldest stamp

/-- Recording a result keeps what the pass owes: the priced event is settled, or it pins the
cursor. -/
theorem runHolds_price (sound : Sound s) {run : RunningPass} (holds : RunHolds s key run)
    {e : RawEvent} {position : ℕ} {results : PricingResults}
    (next : run.remaining[position]? = some e)
    (listed : recordedUnder key.2 key.1 results e) :
    RunHolds s key (run.price key e position results) where
  reached := holds.reached
  owed event member := by
    obtain ⟨rows, added⟩ := recordEvent_valuations key.1 e run.buffers key.2 results
    rcases holds.owed event member with ahead | pinned | settles | late
    · obtain ⟨inRange, found⟩ := List.getElem?_eq_some_iff.mp next
      have split := (List.getElem_cons_eraseIdx_perm inRange).mem_iff.mpr ahead
      rcases List.mem_cons.mp split with rfl | still
      · rw [found] at member ⊢
        cases transient : (recordEvent key.2 key.1 results e run.buffers).2 with
        | false =>
            refine Or.inr (Or.inr (Or.inl ?_))
            exact recordEvent_settles (mem_waiting.mp member).2.1 listed transient
        | true =>
            obtain ⟨stored, _, isFinal, _⟩ := mem_waiting.mp member
            obtain ⟨stamp, carried, _, _⟩ := sound.stamped e stored isFinal
            refine Or.inr (Or.inl ?_)
            show Pinned (pin _ e.finalizedAt run.minUnresolved) e
            rw [transient]
            exact pinned_pin carried run.minUnresolved
      · exact Or.inl still
    · exact Or.inr (Or.inl (pinned.pin _ _))
    · refine Or.inr (Or.inr (Or.inl (settles.mono ?_ fun _ _ _ known => known)))
      exact added ▸ List.subset_append_left _ _
    · exact Or.inr (Or.inr (Or.inr late))

/-- A statement of a flush moves outcomes from the buffers to the database. -/
theorem runHolds_flush {run : RunningPass} (holds : RunHolds s key run) {buffers : BulkBuffers}
    {db' : Db} (executed : flushStatement run.buffers s.db = some (buffers, db')) :
    RunHolds { s with db := db' } key { run with buffers } where
  reached := holds.reached
  owed e member := by
    have grows := outcomesGrow_flushStatement executed
    rcases holds.owed e (waiting_of_outcomesGrow grows member) with ahead | pinned | settles | late
    · exact Or.inl ahead
    · exact Or.inr (Or.inl pinned)
    · refine Or.inr (Or.inr (Or.inl ?_))
      rcases flushStatement_cases executed with ⟨_, rfl, rfl⟩ | ⟨_, rfl, rfl⟩ | ⟨_, rfl, rfl⟩
      · show needsWork key.2 key.1 (insertValuations _ (insertValuations _ s.db)) e = false
        rw [← insertValuations_append, List.take_append_drop]
        exact settles
      · exact settles.mono (fun _ row => row) grows.outcomes
      · exact settles.mono (fun _ row => row) grows.outcomes
    · exact Or.inr (Or.inr (Or.inr late))

/-- A frontier is a stamp of the past. -/
theorem frontierOf_le_clock (sound : Sound s) {pass : PassName} {newest : Timestamp}
    (largest : newest ∈ frontierOf pass s.db) : newest ≤ s.clock := by
  obtain ⟨e, counted, carried⟩ :=
    List.mem_filterMap.mp (List.max?_mem (Option.mem_def.mp largest))
  obtain ⟨stored, passes⟩ := List.mem_filter.mp counted
  obtain ⟨_, isFinal⟩ := Bool.and_eq_true _ _ ▸ passes
  obtain ⟨stamp, stamped, _, past⟩ := sound.stamped e stored (of_decide_eq_true isFinal)
  exact Option.mem_unique stamped carried ▸ past

/-- After the last flush a pass owes only what it pinned. -/
theorem holds_readFrontier (sound : Sound s) {phase phase' : PassPhase}
    (holds : PhaseHolds s key phase) (read : phase.readFrontier key s.db = some phase') :
    PhaseHolds s key phase' := by
  cases phase with
  | running run =>
      simp only [PassPhase.readFrontier, Option.ite_none_right_eq_some, Option.some.injEq] at read
      obtain ⟨⟨priced, flushed⟩, rfl⟩ := read
      have run_holds : RunHolds s key run := holds
      refine ⟨run_holds.reached, fun _ => frontierOf_le_clock sound, fun e member => ?_⟩
      rcases run_holds.owed e member with ahead | pinned | settles | late
      · rw [priced] at ahead
        cases ahead
      · exact Or.inl pinned
      · rw [flushStatement_eq_none (Option.isNone_iff_eq_none.mp flushed)] at settles
        have unsettled := (mem_waiting.mp member).2.2.2
        exact absurd (settles.symm.trans unsettled) Bool.false_ne_true
      · exact Or.inr late
  | reading | started | finished => cases read

/-- An advance that keeps latecomers in reach leaves a floor that holds. -/
theorem floorHolds_nextWatermark {run : FinishedPass} (holds : FinishedHolds s key run)
    (inReach : latecomersInReach s ⟨key, .finished run⟩ run) {newest : Timestamp}
    (read : run.frontier = some newest) :
    FloorHolds s key (nextWatermark run.minUnresolved newest - defaultLookback) := by
  have lookback : 0 ≤ defaultLookback := by decide
  have capped := nextWatermark_le_frontier run.minUnresolved newest
  refine ⟨?_, fun e member stamp stamped => ?_⟩
  · have past := holds.reached newest read
    linarith
  · rcases holds.owed e member with ⟨oldest, pinned, older⟩ | late
    · have low := nextWatermark_le_pin pinned newest
      have own := older stamp stamped
      linarith
    · rcases inReach e member stamp stamped (late stamp stamped) with near | ⟨oldest, pinned, near⟩
      · have own := near newest read
        linarith
      · have low := nextWatermark_le_pin pinned newest
        linarith

theorem sound_advance (sound : Sound s) {worker : Worker}
    (holds : PhaseHolds s worker.key worker.phase) {db' : Db}
    (advanced : worker.phase.advance worker.key s.db = some db')
    (inReach : ∀ run ∈ worker.finishedRun, latecomersInReach s worker run) :
    Sound { s with db := db' } := by
  obtain ⟨key, phase⟩ := worker
  cases phase with
  | finished run =>
      cases advanced
      unfold Valuator.advance
      split
      · next newest _ read =>
          refine sound.mono
            ⟨le_refl _, fun _ _ _ known => known, fun _ _ member => Or.inl member⟩
            (fun _ member _ => Or.inl member) (fun other cursor stored => ?_)
            (fun _ _ present => Or.inl present)
          by_cases own : other = key
          · subst own
            rw [Table.lookup_upsert_self] at stored
            cases stored
            have floor := floorHolds_nextWatermark holds (inReach run rfl) read
            exact Or.inr ⟨floor.reached, floor.below⟩
          · rw [Table.lookup_upsert_of_ne own] at stored
            exact Or.inl stored
      · exact sound
  | reading | started | running => cases advanced

/-! ## Every step, every run -/

/-- The step lemma. -/
theorem sound_step (s : ValuatorSystem) (a : ValuatorAction) (s' : ValuatorSystem)
    (sound : Sound s) (allowed : keepsInReach s a) (stepped : step s a = some s') :
    Sound s' := by
  cases a with
  | tick elapsed =>
      cases stepped
      exact sound_tick sound elapsed
  | insert rows =>
      simp only [step, Option.ite_none_right_eq_some, Option.some.injEq] at stepped
      obtain ⟨_, rfl⟩ := stepped
      exact sound_insert sound rows
  | finality latestTs finalizedTs =>
      cases stepped
      exact sound_finality sound latestTs finalizedTs
  | record valuations attempts =>
      cases stepped
      exact sound_outcomes sound
        ((outcomesGrow_insertValuations ..).trans (outcomesGrow_insertAttempts ..))
  | begin w key =>
      simp only [step, Option.ite_none_right_eq_some, Option.some.injEq] at stepped
      obtain ⟨_, rfl⟩ := stepped
      exact sound_enter sound (holds_readCursor sound key) w
  | checkValuations w =>
      obtain ⟨worker, present, phase, checked, rfl⟩ := by
        simpa [step, Option.bind_eq_some_iff] using stepped
      exact sound_enter sound
        (holds_checkValuations sound (sound.workers w worker present) checked) w
  | fetch w =>
      obtain ⟨worker, present, phase, fetched, rfl⟩ := by
        simpa [step, Option.bind_eq_some_iff] using stepped
      exact sound_enter sound (holds_fetch sound (sound.workers w worker present) fetched) w
  | price w position results =>
      obtain ⟨worker, present, phase, priced, rfl⟩ := by
        simpa [step, Option.bind_eq_some_iff] using stepped
      obtain ⟨run, e, running, next, rfl⟩ := PassPhase.price_cases priced
      have holds := sound.workers w worker present
      rw [running] at holds
      have listed := allowed worker present e (by simpa [Worker.remaining, running] using next)
      exact sound_running sound (runHolds_price sound holds next listed) w
  | flush w =>
      obtain ⟨worker, present, phase, db, flushed, rfl⟩ := by
        simpa [step, Option.bind_eq_some_iff] using stepped
      obtain ⟨run, running, ⟨buffers, executed, rfl⟩ | ⟨rfl, rfl⟩⟩ := PassPhase.flush_cases flushed
      all_goals
        have holds := sound.workers w worker present
        rw [running] at holds
      · have stored := sound_outcomes sound (outcomesGrow_flushStatement executed)
        exact sound_running stored (runHolds_flush holds executed) w
      · have ended : RunHolds s worker.key { run with flushing := false } :=
          ⟨holds.reached, holds.owed⟩
        exact sound_running sound ended w
  | readFrontier w =>
      obtain ⟨worker, present, phase, read, rfl⟩ := by
        simpa [step, Option.bind_eq_some_iff] using stepped
      exact sound_enter sound (holds_readFrontier sound (sound.workers w worker present) read) w
  | advance w =>
      obtain ⟨worker, present, db, advanced, rfl⟩ := by
        simpa [step, Option.bind_eq_some_iff] using stepped
      exact sound_leave (sound_advance sound (sound.workers w worker present) advanced
        (allowed worker present)) w
  | abort w =>
      cases stepped
      exact sound_leave sound w

theorem sound_start : Sound start where
  clock := le_refl 0
  stamped _ member _ := absurd member List.not_mem_nil
  cursors _ _ stored := by cases stored
  workers _ _ present := by cases present

theorem neverSkips_of_sound (sound : Sound s) : NeverSkips s := by
  intro key e member
  refine mem_fetchCandidatesOf sound ?_ member
  simp only [scanFloor, Bool.false_eq_true, if_false]
  split
  · exact floorHolds_zero sound key
  · next cursor stored =>
      split
      · exact sound.cursors key cursor stored
      · exact floorHolds_zero sound key

/-- **In a run whose advances keep latecomers in reach, no waiting event is skipped.** -/
theorem cursor_skips_nothing (run : GuardedRun step keepsInReach start s) : NeverSkips s :=
  neverSkips_of_sound (GuardedRun.invariant sound_step run sound_start)

/-! ## A pass and a latecomer -/

/-- An ETH deposit. -/
def depositRow (position : ℕ) : PreparedRow where
  txHash := "0xt"
  logIndex := position
  blockNumber := 1
  blockHash := "0xb"
  blockTimestamp := 0
  contractName := .TicketBroker
  eventName := .DepositFunded
  asset := some .ETH
  amountNormalized := some ⟨1000⟩
  isValuable := true
  fromAddress := some "0xa"
  toAddress := none
  decoded := .none
  amount_of_asset := amount_given

def ethKey : PassKey := (twapVersion, .ETH)

/-- Deposit 2 is finalized just after the fetch, deposit 3 when the pass has flushed. -/
def passLasting (seconds : ℕ) : List ValuatorAction :=
  [.insert [(1, depositRow 1)], .finality 1000 100, .begin 0 ethKey, .fetch 0,
    .insert [(2, depositRow 2)], .finality 1000 100,
    .price 0 0 ⟨.ok (.priced 2000 2 "chainlink", []), .error "not read"⟩, .flush 0, .flush 0,
    .tick (seconds * 1000000), .insert [(3, depositRow 3)], .finality 1000 100,
    .readFrontier 0, .advance 0]

/-- Within the lookback both latecomers are still scanned. -/
theorem passLasting_skips_nothing :
    ∃ s, execute step start (passLasting 500) = some s ∧
      (waiting ethKey s.db).map (·.id) = [2, 3] ∧ NeverSkips s := by
  refine ⟨(execute step start (passLasting 500)).get (by decide +kernel),
    (Option.some_get _).symm, by decide +kernel, ?_⟩
  exact cursor_skips_nothing (execute_guardedRun (Option.some_get _).symm (by decide +kernel))

/-- **A latecomer of a long pass is skipped**: deposit 2 waits below the scan floor. -/
theorem latecomer_is_skipped : ¬ ∀ s, Run step start s → NeverSkips s := by
  intro law
  have executed : execute step start (passLasting 700) =
      some ((execute step start (passLasting 700)).get (by decide +kernel)) :=
    (Option.some_get _).symm
  obtain ⟨⟨stamp, carried, above⟩, _⟩ := law _ (execute_run executed) ethKey
    ((depositRow 2).finalizedAs 2 0) (by decide +kernel)
  cases carried
  exact absurd above (by decide +kernel)

end ValuatorSystem

end ProtocolExplorer.Valuator
