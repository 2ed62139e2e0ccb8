import ProtocolExplorer.Valuator.SeedPass
import ProtocolExplorer.Valuator.Settlement

/-!
# Whose price an event carries

Seeds are imported, events are inserted and finalized, and the seed pass and the on-chain passes
price what they find, all of them side by side.  A valuation is never replaced, so an event
carries the price of the pass that stores its row first.  The marker lets the seed pass return
without looking for events that were finalized after it was written, and the on-chain passes that
follow do look.

* `Sound` — an event with a seed has no valuation but that of its seed, and no on-chain pass
  holds it;
* `sound_step` — the step lemma, for steps on which no on-chain pass fetches an event with a
  seed and no seed arrives for an event that an on-chain pass has valued or holds;
* `seeds_win` — **in runs of such steps every event with a seed ends with the valuation of the
  seed, the same in any two histories**;
* `marker_shuts_out_seed` — an event that is finalized after the marker was written.
-/

set_option autoImplicit false

namespace ProtocolExplorer.Valuator

open ProtocolExplorer.Lib
open ProtocolExplorer.Store
open ProtocolExplorer.Indexer
open ProtocolExplorer.Finality

/-! ## The on-chain passes -/

/-- An on-chain pass between two statements. -/
structure OnchainPass where
  key : PassKey
  includeTentative : Bool
  phase : PassPhase

namespace OnchainPass

/-- `scan_floor` starts at the epoch when tentative rows are included. -/
def begin (key : PassKey) (includeTentative : Bool) (db : Db) : OnchainPass where
  key := key
  includeTentative := includeTentative
  phase := if includeTentative then .started 0 else .readCursor key db

/-- What the candidate query of a started pass answers. -/
def candidates (pass : OnchainPass) (db : Db) : List RawEvent :=
  match pass.phase with
  | .started floor =>
      fetchCandidatesOf pass.key.2 pass.key.1 pass.includeTentative floor db
  | _ => []

def fetch (pass : OnchainPass) (clock : Timestamp) (db : Db) : Option PassPhase :=
  match pass.phase with
  | .started _ =>
      some (.running
        { fetchedAt := clock
          remaining := pass.candidates db
          buffers := BulkBuffers.new
          minUnresolved := none
          flushing := false })
  | _ => none

def advance (pass : OnchainPass) (db : Db) : Option Db :=
  match pass.phase with
  | .finished run =>
      some (Valuator.advance pass.key run.minUnresolved run.frontier pass.includeTentative db)
  | _ => none

/-- The valuations that are not flushed yet. -/
def buffered (pass : OnchainPass) : List ValuationRow :=
  match pass.phase with
  | .running run => run.buffers.valuations
  | _ => []

/-- The ids of the events the pass will value: those to be priced, and those in its buffers. -/
def held (pass : OnchainPass) : List ℤ :=
  match pass.phase with
  | .running run => run.remaining.map (·.id) ++ run.buffers.valuations.map (·.eventId)
  | _ => []

end OnchainPass

/-- The methods of the on-chain passes. -/
def onchainMethods : List String :=
  [pricingMethodEth, pricingMethodLptTwap, pricingMethodLptSpot, "no_amount"]

theorem method_of_mem_ethOutcome {version : Version} {e : RawEvent} {amount : Numeric}
    {result : Pricing PricingOutcome} {o : Outcome}
    (pushed : o ∈ ethOutcome version e amount result) :
    o.valuation.pricingMethod ∈ onchainMethods := by
  rcases result with error | ⟨price | detail | detail, prices⟩
  · cases pushed
  all_goals
    cases List.mem_singleton.mp pushed
    exact List.mem_cons_self ..

theorem method_of_mem_lptOutcome {version : Version} {e : RawEvent} {amount : Numeric}
    {result : Pricing LptOutcome} {o : Outcome}
    (pushed : o ∈ lptOutcome version e amount result) :
    o.valuation.pricingMethod ∈ onchainMethods := by
  rcases result with error | ⟨price | price | detail | detail | detail, prices⟩
  · obtain ⟨detail, _, rfl⟩ := List.mem_map.mp pushed
    exact List.mem_cons_of_mem _ (List.mem_cons_self ..)
  case ok.pricedDegraded =>
    cases List.mem_singleton.mp pushed
    exact List.mem_cons_of_mem _ (List.mem_cons_of_mem _ (List.mem_cons_self ..))
  all_goals
    cases List.mem_singleton.mp pushed
    exact List.mem_cons_of_mem _ (List.mem_cons_self ..)

/-- What an on-chain pass pushes does not look like a seed's. -/
theorem method_of_mem_outcomesOf {version : Version} {e : RawEvent} {results : PricingResults}
    {pass : PassName} {o : Outcome} (pushed : o ∈ outcomesOf version e results pass) :
    o.valuation.pricingMethod ≠ pricingMethodSeed := by
  have foreign : pricingMethodSeed ∉ onchainMethods := by decide +kernel
  intro same
  apply foreign
  rw [← same]
  have zero : ∀ asset reason, o ∈ [zeroOutcome version e asset reason] →
      o.valuation.pricingMethod ∈ onchainMethods := by
    intro asset reason listed
    cases List.mem_singleton.mp listed
    exact List.mem_of_getElem? (i := 3) rfl
  unfold outcomesOf at pushed
  split at pushed
  · exact method_of_mem_ethOutcome pushed
  · exact method_of_mem_lptOutcome pushed
  · rcases List.mem_append.mp pushed with rewards | fees
    · split at rewards
      · exact zero _ _ rewards
      · exact method_of_mem_lptOutcome rewards
    · split at fees
      · exact zero _ _ fees
      · exact method_of_mem_ethOutcome fees
  · cases pushed

/-! ## The system -/

structure SeedSystem where
  clock : Timestamp
  db : Db
  seeds : List SeededPrice
  seedPasses : Table ℕ SeedPass
  onchainPasses : Table ℕ OnchainPass

inductive SeedAction where
  | tick (elapsed : ℕ)
  | importSeeds (rows : List SourceRow)
  | insert (rows : NumberedRows)
  | finality (latestTs finalizedTs : ℤ)
  | beginSeed (w : ℕ) (version : Version) (includeTentative : Bool)
  /-- The next statement of a seed pass. -/
  | seed (w : ℕ)
  | abortSeed (w : ℕ)
  | begin (w : ℕ) (key : PassKey) (includeTentative : Bool)
  | checkValuations (w : ℕ)
  | fetch (w : ℕ)
  | price (w : ℕ) (position : ℕ) (results : PricingResults)
  | flush (w : ℕ)
  | readFrontier (w : ℕ)
  | advance (w : ℕ)
  | abort (w : ℕ)

namespace SeedSystem

def start : SeedSystem := ⟨0, Db.empty, [], ∅, ∅⟩

/-- Put an on-chain pass into a phase. -/
def enter (s : SeedSystem) (w : ℕ) (pass : OnchainPass) (phase : PassPhase) : SeedSystem :=
  { s with onchainPasses := s.onchainPasses.insert w { pass with phase } }

/-- End an on-chain pass. -/
def leave (s : SeedSystem) (w : ℕ) : SeedSystem :=
  { s with onchainPasses := s.onchainPasses.erase w }

def step (s : SeedSystem) : SeedAction → Option SeedSystem
  | .tick elapsed => some { s with clock := s.clock + elapsed }
  | .importSeeds rows => some { s with seeds := importSeeds rows s.seeds }
  | .insert rows =>
      if freshIds rows s.db.rawProtocolEvents then
        some { s with
          db := { s.db with rawProtocolEvents := insertEvents rows s.db.rawProtocolEvents } }
      else none
  | .finality latestTs finalizedTs =>
      some { s with db := runOnce s.clock latestTs finalizedTs s.db }
  | .beginSeed w version includeTentative =>
      if w ∈ s.seedPasses then none
      else some { s with
        seedPasses := s.seedPasses.insert w (SeedPass.begin version includeTentative s.seeds) }
  | .seed w => do
      let pass ← s.seedPasses.lookup w
      let (phase, db) := pass.next s.clock s.seeds s.db
      return { s with
        db := db
        seedPasses := phase.elim (s.seedPasses.erase w) fun phase =>
          s.seedPasses.insert w { pass with phase } }
  | .abortSeed w => some { s with seedPasses := s.seedPasses.erase w }
  | .begin w key includeTentative =>
      if w ∈ s.onchainPasses ∨ key.2 = .SEED then none
      else some { s with
        onchainPasses :=
          s.onchainPasses.insert w (OnchainPass.begin key includeTentative s.db) }
  | .checkValuations w => do
      let pass ← s.onchainPasses.lookup w
      let phase ← pass.phase.checkValuations pass.key s.db
      return s.enter w pass phase
  | .fetch w => do
      let pass ← s.onchainPasses.lookup w
      let phase ← pass.fetch s.clock s.db
      return s.enter w pass phase
  | .price w position results => do
      let pass ← s.onchainPasses.lookup w
      let phase ← pass.phase.price pass.key position results
      return s.enter w pass phase
  | .flush w => do
      let pass ← s.onchainPasses.lookup w
      let (phase, db) ← pass.phase.flush s.db
      return { s with db := db }.enter w pass phase
  | .readFrontier w => do
      let pass ← s.onchainPasses.lookup w
      let phase ← pass.phase.readFrontier pass.key s.db
      return s.enter w pass phase
  | .advance w => do
      let pass ← s.onchainPasses.lookup w
      let db ← pass.advance s.db
      return { s with db := db }.leave w
  | .abort w => some (s.leave w)

/-! ## The law and its condition -/

/-- The events the valuator values: valuable, canonical and finalized. -/
def isFinalValuable (e : RawEvent) : Bool :=
  e.isValuable && e.isCanonical && decide (e.finality = .finalized)

/-- No pass at the version has anything left to do. -/
def CaughtUp (version : Version) (s : SeedSystem) : Prop :=
  hasSeedCandidates version false s.seeds s.db = false ∧
    ∀ pass, ValuatorSystem.waiting (version, pass) s.db = []

/-- Every event with a seed carries the valuation of the seed, and none that is not a seed's. -/
def SeedsWin (version : Version) (s : SeedSystem) : Prop :=
  ∀ e ∈ s.db.rawProtocolEvents, isFinalValuable e = true →
    ∀ seed ∈ s.seeds, seed.matchesEvent e = true →
      s.db.eventValuations.lookup (e.id, version, seed.asset) =
          some (seedValuation version e.id e.toPreparedRow seed) ∧
        ∀ key row, s.db.eventValuations.lookup key = some row → key.1 = e.id →
          key.2.1 = version → row.pricingMethod = pricingMethodSeed

/-- In two histories that know the same seed, an event of both is valued alike. -/
def ValuedAlike (version : Version) (s s' : SeedSystem) : Prop :=
  ∀ e ∈ s.db.rawProtocolEvents, ∀ e' ∈ s'.db.rawProtocolEvents,
    e.toPreparedRow = e'.toPreparedRow → isFinalValuable e = true → isFinalValuable e' = true →
    ∀ seed ∈ s.seeds, seed ∈ s'.seeds → seed.matchesEvent e = true →
      ∃ row, s.db.eventValuations.lookup (e.id, version, seed.asset) = some row ∧
        s'.db.eventValuations.lookup (e'.id, version, seed.asset) =
          some { row with eventId := e'.id }

/-- No on-chain pass has valued the event, and none holds it. -/
def Reserved (s : SeedSystem) (id : ℤ) : Prop :=
  (∀ key ∈ s.db.eventValuations.keys, key.1 = id →
      ∀ row ∈ s.db.eventValuations.lookup key, row.pricingMethod = pricingMethodSeed) ∧
    ∀ w ∈ s.onchainPasses.keys, ∀ pass ∈ s.onchainPasses.lookup w, id ∉ pass.held

instance (s : SeedSystem) (id : ℤ) : Decidable (s.Reserved id) :=
  inferInstanceAs (Decidable (_ ∧ _))

/-- The steps the law needs: an on-chain pass fetches no event with a seed, and seeds arrive
before an on-chain pass has taken their events. -/
def seedsComeFirst (s : SeedSystem) : SeedAction → Prop
  | .fetch w => ∀ pass ∈ s.onchainPasses.lookup w, ∀ e ∈ pass.candidates s.db,
      isSeeded s.seeds e = false
  | .importSeeds rows => ∀ row ∈ rows, ∀ e ∈ s.db.rawProtocolEvents,
      row.seeded.matchesEvent e = true → s.Reserved e.id
  | _ => True

instance decidableSeedsComeFirst (s : SeedSystem) : ∀ a, Decidable (s.seedsComeFirst a)
  | .fetch w => inferInstanceAs (Decidable (∀ pass ∈ s.onchainPasses.lookup w,
      ∀ e ∈ pass.candidates s.db, isSeeded s.seeds e = false))
  | .importSeeds rows => inferInstanceAs (Decidable (∀ row ∈ rows,
      ∀ e ∈ s.db.rawProtocolEvents, row.seeded.matchesEvent e = true → s.Reserved e.id))
  | .tick _ | .insert _ | .finality .. | .beginSeed .. | .seed _ | .abortSeed _ | .begin ..
  | .checkValuations _ | .price .. | .flush _ | .readFrontier _ | .advance _ | .abort _ =>
      inferInstanceAs (Decidable True)

/-! ## The invariant -/

/-- A stored valuation is that of the seed of its event, or its event has no seed. -/
def RowHolds (s : SeedSystem) (key : ValuationKey) (row : ValuationRow) : Prop :=
  key = row.key ∧ ∃ e ∈ s.db.rawProtocolEvents, e.id = row.eventId ∧
    ((isSeeded s.seeds e = false ∧ row.pricingMethod ≠ pricingMethodSeed) ∨
      ∃ seed ∈ s.seeds, seed.matchesEvent e = true ∧
        row = seedValuation row.valuationVersion e.id e.toPreparedRow seed)

/-- An on-chain pass holds events without a seed. -/
structure PassHolds (s : SeedSystem) (pass : OnchainPass) : Prop where
  held : ∀ id ∈ pass.held, ∃ e ∈ s.db.rawProtocolEvents, e.id = id ∧ isSeeded s.seeds e = false
  buffered : ∀ row ∈ pass.buffered, row.pricingMethod ≠ pricingMethodSeed

structure Sound (s : SeedSystem) : Prop where
  ids : IdsValid s.db.rawProtocolEvents
  seeds : SeedsValid s.seeds
  rows : ∀ key row, s.db.eventValuations.lookup key = some row → s.RowHolds key row
  passes : ∀ w pass, s.onchainPasses.lookup w = some pass → s.PassHolds pass

theorem sound_start : Sound start where
  ids := ⟨List.nodup_nil, fun _ member => absurd member List.not_mem_nil⟩
  seeds := ⟨List.nodup_nil, fun _ member => absurd member List.not_mem_nil⟩
  rows _ _ stored := by cases stored
  passes _ _ present := by cases present

variable {s s' : SeedSystem}

/-! ## Steps of the events and of the seeds -/

theorem isSeeded_congr {e e' : RawEvent} (same : e.toPreparedRow = e'.toPreparedRow)
    (seeds : List SeededPrice) : isSeeded seeds e = isSeeded seeds e' := by
  unfold isSeeded
  apply congrArg fun test => List.any seeds test
  funext seed
  exact SeededPrice.matchesEvent_congr same seed

/-- Stored rows keep their ids and what was decoded. -/
theorem Sound.evolve (sound : Sound s) {db : Db} (ids : IdsValid db.rawProtocolEvents)
    (valuations : db.eventValuations = s.db.eventValuations)
    (kept : ∀ e ∈ s.db.rawProtocolEvents, ∃ e' ∈ db.rawProtocolEvents,
      e'.id = e.id ∧ e.toPreparedRow = e'.toPreparedRow) : Sound { s with db := db } where
  ids := ids
  seeds := sound.seeds
  rows key row stored := by
    have earlier : s.db.eventValuations.lookup key = some row := valuations ▸ stored
    obtain ⟨own, e, member, same, origin⟩ := sound.rows key row earlier
    obtain ⟨e', member', id, decoded⟩ := kept e member
    refine ⟨own, e', member', id.trans same, ?_⟩
    rcases origin with ⟨unseeded, method⟩ | ⟨seed, listed, matched, valued⟩
    · exact Or.inl ⟨(isSeeded_congr decoded _).symm.trans unseeded, method⟩
    · refine Or.inr ⟨seed, listed, ?_, ?_⟩
      · exact (SeededPrice.matchesEvent_congr decoded seed).symm.trans matched
      · rw [id, ← decoded]
        exact valued
  passes w pass present := by
    obtain ⟨held, buffered⟩ := sound.passes w pass present
    refine ⟨fun id isHeld => ?_, buffered⟩
    obtain ⟨e, member, same, unseeded⟩ := held id isHeld
    obtain ⟨e', member', sameId, decoded⟩ := kept e member
    exact ⟨e', member', sameId.trans same, (isSeeded_congr decoded _).symm.trans unseeded⟩

theorem sound_insert (sound : Sound s) {rows : NumberedRows}
    (fresh : freshIds rows s.db.rawProtocolEvents) :
    Sound { s with
      db := { s.db with rawProtocolEvents := insertEvents rows s.db.rawProtocolEvents } } := by
  refine sound.evolve (idsValid_insertEvents fresh sound.ids) rfl fun e member => ?_
  obtain ⟨new, appended, _⟩ := exists_insertEvents_eq_append rows s.db.rawProtocolEvents
  refine ⟨e, ?_, rfl, rfl⟩
  show e ∈ insertEvents rows s.db.rawProtocolEvents
  rw [appended]
  exact List.mem_append_left new member

theorem sound_finality (sound : Sound s) (latestTs finalizedTs : ℤ) :
    Sound { s with db := runOnce s.clock latestTs finalizedTs s.db } := by
  have marked := runOnce_rawProtocolEvents s.clock latestTs finalizedTs s.db
  refine sound.evolve ?_ rfl fun e member => ?_
  · rw [marked]
    exact sound.ids.map fun e => markRow_id
  · rw [marked]
    exact ⟨_, List.mem_map_of_mem member, markRow_id, markRow_toPreparedRow.symm⟩

/-- A seed that arrives for an event whose rows are all a seed's takes nothing from a pass. -/
theorem unseeded_importSeeds {rows : List SourceRow} {e : RawEvent}
    (unseeded : isSeeded s.seeds e = false)
    (unnamed : ∀ row ∈ rows, row.seeded.matchesEvent e = false) :
    isSeeded (importSeeds rows s.seeds) e = false := by
  by_contra seeded
  obtain ⟨seed, listed, matched⟩ := isSeeded_iff.mp (Bool.not_eq_false _ ▸ seeded)
  rcases mem_importSeeds listed with old | ⟨row, member, rfl⟩
  · exact Bool.eq_false_iff.mp unseeded (isSeeded_iff.mpr ⟨seed, old, matched⟩)
  · exact Bool.eq_false_iff.mp (unnamed row member) matched

theorem sound_importSeeds (sound : Sound s) {rows : List SourceRow}
    (early : ∀ row ∈ rows, ∀ e ∈ s.db.rawProtocolEvents,
      row.seeded.matchesEvent e = true → s.Reserved e.id) :
    Sound { s with seeds := importSeeds rows s.seeds } where
  ids := sound.ids
  seeds := seedsValid_importSeeds sound.seeds rows
  rows key row stored := by
    obtain ⟨own, e, member, same, origin⟩ := sound.rows key row stored
    refine ⟨own, e, member, same, ?_⟩
    rcases origin with ⟨unseeded, method⟩ | ⟨seed, listed, matched, valued⟩
    · refine Or.inl ⟨unseeded_importSeeds unseeded fun imported offered => ?_, method⟩
      by_contra named
      obtain ⟨bySeed, _⟩ := early imported offered e member (Bool.not_eq_false _ ▸ named)
      have known := Finmap.mem_keys.mpr (Finmap.mem_of_lookup_eq_some stored)
      have id : key.1 = e.id := by rw [own, same, ValuationRow.key]
      exact method (bySeed key known id row stored)
    · exact Or.inr ⟨seed, subset_importSeeds rows s.seeds listed, matched, valued⟩
  passes w pass present := by
    obtain ⟨held, buffered⟩ := sound.passes w pass present
    refine ⟨fun id isHeld => ?_, buffered⟩
    obtain ⟨e, member, same, unseeded⟩ := held id isHeld
    refine ⟨e, member, same, unseeded_importSeeds unseeded fun imported offered => ?_⟩
    by_contra named
    obtain ⟨_, notHeld⟩ := early imported offered e member (Bool.not_eq_false _ ▸ named)
    have known := Finmap.mem_keys.mpr (Finmap.mem_of_lookup_eq_some present)
    exact notHeld w known pass present (same ▸ isHeld)

/-! ## Steps that store valuations -/

/-- What is stored holds, and only valuations are. -/
theorem Sound.store (sound : Sound s) {db : Db}
    (events : db.rawProtocolEvents = s.db.rawProtocolEvents)
    (grown : Table.Grown s.RowHolds s.db.eventValuations db.eventValuations) :
    Sound { s with db := db } where
  ids := events ▸ sound.ids
  seeds := sound.seeds
  rows key row stored := by
    have holds : s.RowHolds key row := by
      rcases grown.fresh key row stored with earlier | ⟨_, offered⟩
      · exact sound.rows key row earlier
      · exact offered
    obtain ⟨own, e, member, origin⟩ := holds
    exact ⟨own, e, events.symm ▸ member, origin⟩
  passes w pass present := by
    obtain ⟨held, buffered⟩ := sound.passes w pass present
    refine ⟨fun id isHeld => ?_, buffered⟩
    obtain ⟨e, member, unseeded⟩ := held id isHeld
    exact ⟨e, events.symm ▸ member, unseeded⟩

/-- A batch of the seed pass. -/
theorem sound_insertSeedBatch (sound : Sound s) (version : Version) (includeTentative : Bool) :
    Sound { s with db := (insertSeedBatch version includeTentative s.seeds s.db).2 } := by
  refine sound.store rfl (grown_insertSeedBatch.mono ?_)
  rintro key row ⟨own, e, member, seed, listed, matched, rfl⟩
  exact ⟨own, e, member, rfl, Or.inr ⟨seed, listed, matched, rfl⟩⟩

theorem sound_next (sound : Sound s) (pass : SeedPass) :
    Sound { s with db := (pass.next s.clock s.seeds s.db).2 } := by
  rcases pass.next_cases s.clock s.seeds s.db with same | batch | ⟨count, marker⟩
  · rw [same]
    exact sound
  · rw [batch]
    exact sound_insertSeedBatch sound pass.version pass.includeTentative
  · rw [marker]
    exact sound.store rfl (Table.Grown.refl _)

/-- A statement of a flush stores what its pass has buffered. -/
theorem sound_flushStatement (sound : Sound s) {buffers buffers' : BulkBuffers} {db : Db}
    (buffered : ∀ row ∈ buffers.valuations, row.pricingMethod ≠ pricingMethodSeed ∧
      ∃ e ∈ s.db.rawProtocolEvents, e.id = row.eventId ∧ isSeeded s.seeds e = false)
    (executed : flushStatement buffers s.db = some (buffers', db)) :
    Sound { s with db := db } := by
  rcases flushStatement_cases executed with ⟨_, _, rfl⟩ | ⟨_, _, rfl⟩ | ⟨_, _, rfl⟩
  · refine sound.store rfl (Table.grown_foldl_insertNew ValuationRow.key id ?_ _)
    intro row written
    obtain ⟨method, e, member, same, unseeded⟩ := buffered row (List.mem_of_mem_take written)
    exact ⟨rfl, e, member, same, Or.inl ⟨unseeded, method⟩⟩
  · exact sound.store rfl (Table.Grown.refl _)
  · exact sound.store rfl (Table.Grown.refl _)

/-! ## Steps of an on-chain pass -/

theorem sound_enter (sound : Sound s) {pass : OnchainPass} {phase : PassPhase} (w : ℕ)
    (holds : s.PassHolds { pass with phase }) : Sound (s.enter w pass phase) where
  ids := sound.ids
  seeds := sound.seeds
  rows := sound.rows
  passes w' other present := by
    have found : (s.onchainPasses.insert w { pass with phase }).lookup w' = some other := present
    by_cases own : w' = w
    · subst own
      rw [Finmap.lookup_insert] at found
      cases found
      exact ⟨holds.held, holds.buffered⟩
    · rw [Finmap.lookup_insert_of_ne _ own] at found
      obtain ⟨held, buffered⟩ := sound.passes w' other found
      exact ⟨held, buffered⟩

theorem sound_leave (sound : Sound s) (w : ℕ) : Sound (s.leave w) where
  ids := sound.ids
  seeds := sound.seeds
  rows := sound.rows
  passes w' other present := by
    have found : (s.onchainPasses.erase w).lookup w' = some other := present
    by_cases own : w' = w
    · subst own
      rw [Finmap.lookup_erase] at found
      cases found
    · rw [Finmap.lookup_erase_ne own] at found
      obtain ⟨held, buffered⟩ := sound.passes w' other found
      exact ⟨held, buffered⟩

/-- A pass that holds nothing. -/
theorem holds_of_idle {pass : OnchainPass} (nothing : pass.held = [])
    (unbuffered : pass.buffered = []) : s.PassHolds pass where
  held _ isHeld := absurd (nothing ▸ isHeld) List.not_mem_nil
  buffered _ member := absurd (unbuffered ▸ member) List.not_mem_nil

theorem holds_begin (key : PassKey) (includeTentative : Bool) (db : Db) :
    s.PassHolds (OnchainPass.begin key includeTentative db) := by
  cases includeTentative with
  | true => exact holds_of_idle rfl rfl
  | false =>
      have idle : ∃ phase, OnchainPass.begin key false db = ⟨key, false, phase⟩ ∧
          ((∃ watermark, phase = .reading watermark) ∨ ∃ floor, phase = .started floor) := by
        refine ⟨_, rfl, ?_⟩
        show (∃ watermark, PassPhase.readCursor key db = _) ∨
          ∃ floor, PassPhase.readCursor key db = _
        unfold PassPhase.readCursor
        split
        · exact Or.inr ⟨_, rfl⟩
        · exact Or.inl ⟨_, rfl⟩
      obtain ⟨phase, same, ⟨watermark, rfl⟩ | ⟨floor, rfl⟩⟩ := idle
      · exact same ▸ holds_of_idle rfl rfl
      · exact same ▸ holds_of_idle rfl rfl

theorem holds_checkValuations {pass : OnchainPass} {phase : PassPhase}
    (checked : pass.phase.checkValuations pass.key s.db = some phase) :
    s.PassHolds { pass with phase } := by
  obtain ⟨key, includeTentative, before⟩ := pass
  cases before with
  | reading watermark =>
      cases checked
      exact holds_of_idle rfl rfl
  | started | running | finished => cases checked

/-- A pass that fetches no event with a seed holds none. -/
theorem holds_fetch {pass : OnchainPass} {phase : PassPhase}
    (unseeded : ∀ e ∈ pass.candidates s.db, isSeeded s.seeds e = false)
    (fetched : pass.fetch s.clock s.db = some phase) : s.PassHolds { pass with phase } := by
  obtain ⟨key, includeTentative, before⟩ := pass
  cases before with
  | started floor =>
      cases fetched
      refine ⟨fun id isHeld => ?_, fun row member => absurd member List.not_mem_nil⟩
      rcases List.mem_append.mp isHeld with remaining | buffered
      · obtain ⟨e, candidate, rfl⟩ := List.mem_map.mp remaining
        have stored := (List.mem_filter.mp (mem_orderBy.mp candidate)).1
        exact ⟨e, stored, rfl, unseeded e candidate⟩
      · exact absurd buffered List.not_mem_nil
  | reading | running | finished => cases fetched

/-- Pricing moves an event from the candidates to the buffers. -/
theorem holds_price {pass : OnchainPass} {phase : PassPhase} {position : ℕ}
    {results : PricingResults} (holds : s.PassHolds pass)
    (priced : pass.phase.price pass.key position results = some phase) :
    s.PassHolds { pass with phase } := by
  obtain ⟨run, e, running, next, rfl⟩ := PassPhase.price_cases priced
  obtain ⟨key, includeTentative, before⟩ := pass
  subst running
  have pushes : (run.price key e position results).buffers.valuations =
      run.buffers.valuations ++ (outcomesOf key.1 e results key.2).map Outcome.valuation := by
    show (recordEvent key.2 key.1 results e run.buffers).1.valuations = _
    rw [recordEvent_eq_foldl, Outcome.valuations_foldl_push]
  refine ⟨fun id isHeld => ?_, fun row member => ?_⟩
  · apply holds.held
    rcases List.mem_append.mp isHeld with remaining | buffered
    · obtain ⟨event, later, rfl⟩ := List.mem_map.mp remaining
      exact List.mem_append_left _ (List.mem_map_of_mem (List.mem_of_mem_eraseIdx later))
    · rw [pushes, List.map_append] at buffered
      rcases List.mem_append.mp buffered with old | new
      · exact List.mem_append_right _ old
      · obtain ⟨row, valued, rfl⟩ := List.mem_map.mp new
        obtain ⟨o, pushed, rfl⟩ := List.mem_map.mp valued
        have own : o.valuation.eventId = e.id := eventId_of_mem_outcomesOf pushed
        rw [own]
        exact List.mem_append_left _ (List.mem_map_of_mem (List.mem_of_getElem? next))
  · have split : row ∈ (run.price key e position results).buffers.valuations := member
    rw [pushes] at split
    rcases List.mem_append.mp split with old | new
    · exact holds.buffered row old
    · obtain ⟨o, pushed, rfl⟩ := List.mem_map.mp new
      exact method_of_mem_outcomesOf pushed

/-- A statement of a flush stores what the pass has buffered, or ends the flush. -/
theorem sound_flush (sound : Sound s) {pass : OnchainPass} {phase : PassPhase} {db : Db} (w : ℕ)
    (holds : s.PassHolds pass) (flushed : pass.phase.flush s.db = some (phase, db)) :
    Sound ({ s with db := db }.enter w pass phase) := by
  obtain ⟨run, running, ⟨buffers, executed, rfl⟩ | ⟨rfl, rfl⟩⟩ := PassPhase.flush_cases flushed
  all_goals
    obtain ⟨key, includeTentative, before⟩ := pass
    subst running
  · have owed : ∀ row ∈ run.buffers.valuations, row.pricingMethod ≠ pricingMethodSeed ∧
        ∃ e ∈ s.db.rawProtocolEvents, e.id = row.eventId ∧ isSeeded s.seeds e = false :=
      fun row member => ⟨holds.buffered row member,
        holds.held _ (List.mem_append_right _ (List.mem_map_of_mem member))⟩
    have events : db.rawProtocolEvents = s.db.rawProtocolEvents :=
      (outcomesGrow_flushStatement executed).events
    have fewer : buffers.valuations ⊆ run.buffers.valuations := by
      rcases flushStatement_cases executed with ⟨_, rfl, _⟩ | ⟨_, rfl, _⟩ | ⟨_, rfl, _⟩
      · exact List.drop_subset ..
      · exact List.Subset.refl _
      · exact List.Subset.refl _
    apply sound_enter (sound_flushStatement sound owed executed)
    refine ⟨fun id isHeld => ?_, fun row member => holds.buffered row (fewer member)⟩
    obtain ⟨e, member, unseeded⟩ := holds.held id ((List.mem_append.mp isHeld).elim
      (List.mem_append_left _) fun buffered =>
        List.mem_append_right _ (List.map_subset _ fewer buffered))
    exact ⟨e, events.symm ▸ member, unseeded⟩
  · exact sound_enter sound w ⟨holds.held, holds.buffered⟩

theorem holds_readFrontier {pass : OnchainPass} {phase : PassPhase}
    (read : pass.phase.readFrontier pass.key s.db = some phase) :
    s.PassHolds { pass with phase } := by
  obtain ⟨key, includeTentative, before⟩ := pass
  cases before with
  | running run =>
      simp only [PassPhase.readFrontier, Option.ite_none_right_eq_some, Option.some.injEq] at read
      obtain ⟨_, rfl⟩ := read
      exact holds_of_idle rfl rfl
  | reading | started | finished => cases read

theorem sound_advance (sound : Sound s) {pass : OnchainPass} {db : Db}
    (advanced : pass.advance s.db = some db) : Sound { s with db := db } := by
  obtain ⟨key, includeTentative, phase⟩ := pass
  cases phase with
  | finished run =>
      cases advanced
      unfold Valuator.advance
      split
      · exact sound.store rfl (Table.Grown.refl _)
      · exact sound
  | reading | started | running => cases advanced

/-- Neither the clock nor a seed pass is part of the invariant. -/
theorem Sound.idle (sound : Sound s) (clock : Timestamp) (seedPasses : Table ℕ SeedPass) :
    Sound { s with clock, seedPasses } :=
  ⟨sound.ids, sound.seeds, sound.rows, fun w pass present =>
    ⟨(sound.passes w pass present).held, (sound.passes w pass present).buffered⟩⟩

/-! ## Every step, every run -/

/-- The step lemma. -/
theorem sound_step (s : SeedSystem) (a : SeedAction) (s' : SeedSystem) (sound : Sound s)
    (allowed : s.seedsComeFirst a) (stepped : step s a = some s') : Sound s' := by
  cases a with
  | tick elapsed =>
      cases stepped
      exact sound.idle _ s.seedPasses
  | importSeeds rows =>
      cases stepped
      exact sound_importSeeds sound allowed
  | insert rows =>
      simp only [step, Option.ite_none_right_eq_some, Option.some.injEq] at stepped
      obtain ⟨fresh, rfl⟩ := stepped
      exact sound_insert sound fresh
  | finality latestTs finalizedTs =>
      cases stepped
      exact sound_finality sound latestTs finalizedTs
  | beginSeed w version includeTentative =>
      simp only [step, Option.ite_none_left_eq_some, Option.some.injEq] at stepped
      obtain ⟨_, rfl⟩ := stepped
      exact sound.idle s.clock _
  | seed w =>
      obtain ⟨pass, _, rfl⟩ := by
        simpa [step, Option.bind_eq_some_iff] using stepped
      exact (sound_next sound pass).idle s.clock _
  | abortSeed w =>
      cases stepped
      exact sound.idle s.clock _
  | begin w key includeTentative =>
      simp only [step, Option.ite_none_left_eq_some, Option.some.injEq] at stepped
      obtain ⟨_, rfl⟩ := stepped
      have entered : Sound (s.enter w (OnchainPass.begin key includeTentative s.db)
          (OnchainPass.begin key includeTentative s.db).phase) :=
        sound_enter sound w (holds_begin key includeTentative s.db)
      exact entered
  | checkValuations w =>
      obtain ⟨pass, _, phase, checked, rfl⟩ := by
        simpa [step, Option.bind_eq_some_iff] using stepped
      exact sound_enter sound w (holds_checkValuations checked)
  | fetch w =>
      obtain ⟨pass, present, phase, fetched, rfl⟩ := by
        simpa [step, Option.bind_eq_some_iff] using stepped
      exact sound_enter sound w (holds_fetch (allowed pass present) fetched)
  | price w position results =>
      obtain ⟨pass, present, phase, priced, rfl⟩ := by
        simpa [step, Option.bind_eq_some_iff] using stepped
      exact sound_enter sound w (holds_price (sound.passes w pass present) priced)
  | flush w =>
      obtain ⟨pass, present, phase, db, flushed, rfl⟩ := by
        simpa [step, Option.bind_eq_some_iff] using stepped
      exact sound_flush sound w (sound.passes w pass present) flushed
  | readFrontier w =>
      obtain ⟨pass, _, phase, read, rfl⟩ := by
        simpa [step, Option.bind_eq_some_iff] using stepped
      exact sound_enter sound w (holds_readFrontier read)
  | advance w =>
      obtain ⟨pass, _, db, advanced, rfl⟩ := by
        simpa [step, Option.bind_eq_some_iff] using stepped
      exact sound_leave (sound_advance sound advanced) w
  | abort w =>
      cases stepped
      exact sound_leave sound w

/-- When nothing is left, what is stored for an event with a seed is the valuation of the seed. -/
theorem seedsWin_of_sound (sound : Sound s) {version : Version} (caughtUp : CaughtUp version s) :
    SeedsWin version s := by
  intro e member final seed listed matched
  have origin : ∀ key row, s.db.eventValuations.lookup key = some row → key.1 = e.id →
      key = row.key ∧ row = seedValuation row.valuationVersion e.id e.toPreparedRow seed := by
    intro key row stored same
    obtain ⟨own, e', member', id, origin⟩ := sound.rows key row stored
    have sameId : e'.id = e.id := by
      rw [id, ← same, own]
      rfl
    obtain rfl := sound.ids.eq_of_id_eq member' member sameId
    refine ⟨own, ?_⟩
    rcases origin with ⟨unseeded, _⟩ | ⟨seed', listed', matched', valued⟩
    · exact absurd (isSeeded_iff.mpr ⟨seed, listed, matched⟩) (Bool.eq_false_iff.mp unseeded)
    · rwa [matching_unique sound.seeds listed' listed matched' matched] at valued
  have valuable : e.isValuable = true ∧ e.isCanonical = true ∧ e.finality = .finalized := by
    simpa [isFinalValuable, and_assoc] using final
  have amount : e.amountNormalized.isSome = true := by
    apply e.amount_of_asset
    rw [(SeededPrice.matchesEvent_iff.mp matched).2]
    rfl
  have valued : (e.id, version, seed.asset) ∈ s.db.eventValuations := by
    by_contra missing
    refine Bool.eq_false_iff.mp caughtUp.1 (hasSeedCandidates_iff.mpr
      ⟨e, member, seed, listed, isSeedCandidate_iff.mpr ⟨valuable.1, ?_, amount, matched, missing⟩⟩)
    exact (e.eligible_false_iff).mpr valuable.2
  obtain ⟨row, stored⟩ := Finmap.mem_iff.mp valued
  refine ⟨?_, fun key other found same _ => ?_⟩
  · obtain ⟨own, bySeed⟩ := origin _ row stored rfl
    have named : row.valuationVersion = version :=
      (congrArg (fun key : ValuationKey => key.2.1) own).symm
    rw [stored, bySeed, named]
  · rw [(origin key other found same).2]
    rfl

theorem valuedAlike_of_seedsWin {version : Version} (wins : SeedsWin version s)
    (wins' : SeedsWin version s') : ValuedAlike version s s' := by
  intro e member e' member' same final final' seed listed listed' matched
  have matched' : seed.matchesEvent e' = true :=
    (SeededPrice.matchesEvent_congr same seed).symm.trans matched
  refine ⟨_, (wins e member final seed listed matched).1, ?_⟩
  rw [(wins' e' member' final' seed listed' matched').1, ← same]
  rfl

/-- **If no on-chain pass takes an event that has a seed, nor a seed comes after its event was
taken, every event with a seed ends with the valuation of the seed, whatever the order, and the
same in any two histories.** -/
theorem seeds_win {version : Version} (run : GuardedRun step seedsComeFirst start s)
    (caughtUp : CaughtUp version s) (run' : GuardedRun step seedsComeFirst start s')
    (caughtUp' : CaughtUp version s') : SeedsWin version s ∧ ValuedAlike version s s' := by
  have wins := seedsWin_of_sound (GuardedRun.invariant sound_step run sound_start) caughtUp
  have wins' := seedsWin_of_sound (GuardedRun.invariant sound_step run' sound_start) caughtUp'
  exact ⟨wins, valuedAlike_of_seedsWin wins wins'⟩

/-! ## An event that is finalized after the marker -/

def payoutOf (tx : TxHash) : SourceRow where
  table := .payout
  transactionId := tx
  usd := ⟨2000⟩
  price := ⟨1500⟩
  json := "null"

/-- A redeemed ticket. -/
def ticketOf (tx : TxHash) (block : ℤ) : PreparedRow where
  txHash := tx
  logIndex := 0
  blockNumber := block
  blockHash := "0xb"
  blockTimestamp := 0
  contractName := .TicketBroker
  eventName := .WinningTicketRedeemed
  asset := some .ETH
  amountNormalized := some ⟨1000⟩
  isValuable := true
  fromAddress := some "0xa"
  toAddress := some "0xd"
  decoded := .none
  amount_of_asset := amount_given

/-- The statements of a seed pass. -/
def seedPassOf (statements : ℕ) : List SeedAction :=
  .beginSeed 0 twapVersion false :: List.replicate statements (.seed 0)

/-- An ETH pass over one event. -/
def ethPass : List SeedAction :=
  [.begin 0 ValuatorSystem.ethKey false, .fetch 0,
    .price 0 0 ⟨.ok (.priced 2000 2 "chainlink", []), .error "not read"⟩, .flush 0, .flush 0,
    .readFrontier 0, .advance 0]

/-- The second ticket is finalized when the seeds have been counted: the seed pass returns at the
gate, and the ETH pass finds the ticket. -/
def finalizedLate : List SeedAction :=
  [.importSeeds [payoutOf "0x1", payoutOf "0x2"], .insert [(1, ticketOf "0x1" 1)],
    .finality 1000 100] ++ seedPassOf 6 ++
    [.insert [(2, ticketOf "0x2" 2)], .finality 1000 100] ++ seedPassOf 2 ++ ethPass

/-- Seeds and tickets arrive in turn; the ticket without a seed is left to the ETH pass. -/
def liveHistory : List SeedAction :=
  [.insert [(1, ticketOf "0x1" 1), (2, ticketOf "0x9" 3)], .finality 1000 100,
    .importSeeds [payoutOf "0x1"]] ++ seedPassOf 6 ++ ethPass ++
    [.insert [(3, ticketOf "0x2" 2)], .importSeeds [payoutOf "0x2"], .finality 1000 100] ++
    seedPassOf 6

/-- The seeds are there before the first ticket. -/
def replayHistory : List SeedAction :=
  [.importSeeds [payoutOf "0x1", payoutOf "0x2"],
    .insert [(7, ticketOf "0x1" 1), (8, ticketOf "0x2" 2), (9, ticketOf "0x9" 3)],
    .finality 1000 100] ++ seedPassOf 6 ++ ethPass

/-- Both histories price the two tickets from their seeds. -/
theorem liveHistory_replayHistory :
    ∃ s s', execute step start liveHistory = some s ∧
      execute step start replayHistory = some s' ∧ s.db.eventValuations.keys.card = 3 ∧
      SeedsWin twapVersion s ∧ ValuedAlike twapVersion s s' := by
  have lived : execute step start liveHistory =
      some ((execute step start liveHistory).get (by decide +kernel)) :=
    (Option.some_get _).symm
  have replayed : execute step start replayHistory =
      some ((execute step start replayHistory).get (by decide +kernel)) :=
    (Option.some_get _).symm
  refine ⟨_, _, lived, replayed, by decide +kernel,
    seeds_win (execute_guardedRun lived (by decide +kernel)) ⟨by decide +kernel, ?_⟩
      (execute_guardedRun replayed (by decide +kernel)) ⟨by decide +kernel, ?_⟩⟩
  · intro pass
    cases pass <;> decide +kernel
  · intro pass
    cases pass <;> decide +kernel

/-- **The marker keeps a seed from its event**: the ticket carries the price of the ETH pass. -/
theorem marker_shuts_out_seed :
    ¬ ∀ version s, Run step start s → CaughtUp version s → SeedsWin version s := by
  intro law
  have executed : execute step start finalizedLate =
      some ((execute step start finalizedLate).get (by decide +kernel)) :=
    (Option.some_get _).symm
  generalize ends : (execute step start finalizedLate).get (by decide +kernel) = s at executed
  have caughtUp : CaughtUp twapVersion s := by
    subst ends
    refine ⟨by decide +kernel, fun pass => ?_⟩
    cases pass <;> decide +kernel
  have ticket : (ticketOf "0x2" 2).finalizedAs 2 0 ∈ s.db.rawProtocolEvents := by
    subst ends
    decide +kernel
  have seed : (payoutOf "0x2").seeded ∈ s.seeds := by
    subst ends
    decide +kernel
  have priced : ∀ row, s.db.eventValuations.lookup (2, twapVersion, .ETH) = some row →
      row.pricingMethod = pricingMethodEth := by
    subst ends
    decide +kernel
  obtain ⟨stored, _⟩ := law twapVersion s (execute_run executed) caughtUp _ ticket
    (by decide +kernel) _ seed (by decide +kernel)
  have method := priced _ stored
  exact absurd method (by decide +kernel)

end SeedSystem

end ProtocolExplorer.Valuator
