import ProtocolExplorer.Staker.ProfileProgress
import ProtocolExplorer.Staker.RoundSnapshots

/-!
# Snapshots and the batches they come from

At a `NewRound` a profile run stores a row for each orchestrator it knows.  It knows what the scan
before its checkpoint finds, what its whole batch names, later events included, and what the
TransferBonds of the batch resolve to.  `walkRows` are the rows of a walk over the final events in
order that only knows what it has come across.

The system lets blocks become final in order, lets profile runs with any limit complete or be
interrupted, and lets the view of the profiles be refreshed at any time.

* `profileWalk_rows` — what a walk stores, as a list of rows;
* `knownAt_eq_iff` — when a run knows at a `NewRound` just what has been introduced before it;
* `walked_step` — the step lemma: if the runs know just that, the table holds the rows of a walk
  over a prefix of the final events;
* `profileRuns_agree` — **any two schedules of such runs that have caught up leave the same rows**.
-/

set_option autoImplicit false

namespace ProtocolExplorer.Staker

open ProtocolExplorer.Lib
open ProtocolExplorer.Store

/-! ## The rows of a walk -/

section Walks

variable (reads : OrchReads)

/-- The rows of a `NewRound` event. -/
def roundRows (log : List RawEvent) (known : Finset Address) (e : RawEvent) : List KeyedStake :=
  if e.eventName = .NewRound then
    (extractRound e).elim [] fun round =>
      (sortKeys known).map fun orch => ((orch, round), snapshotRow reads log e orch)
  else []

/-- The rows of a walk over some events, when some orchestrators are known at its start. -/
def walkRows (log : List RawEvent) : Finset Address → List RawEvent → List KeyedStake
  | _, [] => []
  | known, e :: rest =>
      roundRows reads log known e ++ walkRows log (known ∪ (learns reads e).toFinset) rest

/-- `ON CONFLICT DO NOTHING` for some rows. -/
def storeRows (rows : List KeyedStake) (table : Table (Address × ℤ) OrchStake) :
    Table (Address × ℤ) OrchStake :=
  rows.foldl (fun stored keyed => stored.insertNew keyed.1 keyed.2) table

variable {reads} {log : List RawEvent}

theorem storeRows_append (first rest : List KeyedStake) (table : Table (Address × ℤ) OrchStake) :
    storeRows (first ++ rest) table = storeRows rest (storeRows first table) :=
  List.foldl_append

theorem learned_cons (e : RawEvent) (events : List RawEvent) :
    learned reads (e :: events) = (learns reads e).toFinset ∪ learned reads events := by
  ext address
  simp only [learned, List.mem_toFinset, List.mem_filterMap, List.exists_mem_cons_iff,
    Finset.mem_union, Option.mem_toFinset, Option.mem_def]

theorem learned_append (first rest : List RawEvent) :
    learned reads (first ++ rest) = learned reads first ∪ learned reads rest := by
  rw [learned, learned, learned, List.filterMap_append, List.toFinset_append]

/-- A walk over two lists. -/
theorem walkRows_append (known : Finset Address) (first rest : List RawEvent) :
    walkRows reads log known (first ++ rest) =
      walkRows reads log known first ++
        walkRows reads log (known ∪ learned reads first) rest := by
  induction first generalizing known with
  | nil => simp [walkRows, learned]
  | cons e others inductionHypothesis =>
      rw [List.cons_append, walkRows, walkRows, inductionHypothesis, List.append_assoc,
        learned_cons, Finset.union_assoc]

/-- Only what is known at the `NewRound` events matters. -/
theorem walkRows_congr {known known' : Finset Address} {events : List RawEvent}
    (same : ∀ before e after, events = before ++ e :: after → e.eventName = .NewRound →
      known ∪ learned reads before = known' ∪ learned reads before) :
    walkRows reads log known events = walkRows reads log known' events := by
  induction events generalizing known known' with
  | nil => rfl
  | cons e rest inductionHypothesis =>
      have here : roundRows reads log known e = roundRows reads log known' e := by
        unfold roundRows
        split
        · next newRound =>
            have atFirst := same [] e rest rfl newRound
            simp only [learned, List.filterMap_nil, List.toFinset_nil, Finset.union_empty]
              at atFirst
            rw [atFirst]
        · rfl
      rw [walkRows, walkRows, here, inductionHypothesis]
      intro before other after split newRound
      have later := same (e :: before) other after (by rw [split]; rfl) newRound
      rwa [learned_cons, ← Finset.union_assoc, ← Finset.union_assoc] at later

/-- The rows of a walk are those that it offers. -/
theorem mem_walkRows {known : Finset Address} {events : List RawEvent} {key : Address × ℤ}
    {row : OrchStake} : (key, row) ∈ walkRows reads log known events ↔
      Offered reads log known events key row := by
  induction events generalizing known with
  | nil =>
      refine iff_of_false List.not_mem_nil ?_
      rintro ⟨before, e, after, split, _⟩
      exact absurd split (by simp)
  | cons e rest inductionHypothesis =>
      rw [walkRows, List.mem_append, inductionHypothesis]
      constructor
      · rintro (here | ⟨before, other, after, rfl, newRound, round, known_, rfl⟩)
        · unfold roundRows at here
          split_ifs at here with newRound
          · cases round : extractRound e with
            | none =>
                rw [round] at here
                cases here
            | some found =>
                rw [round, Option.elim_some, List.mem_map] at here
                obtain ⟨orch, isKnown, own⟩ := here
                cases own
                refine ⟨[], e, rest, rfl, newRound, round, ?_, rfl⟩
                exact Finset.mem_union_left _ (mem_sortKeys.mp isKnown)
          · cases here
        · refine ⟨e :: before, other, after, rfl, newRound, round, ?_, rfl⟩
          rwa [learned_cons, ← Finset.union_assoc]
      · rintro ⟨before, other, after, split, newRound, round, known_, rfl⟩
        rcases List.cons_eq_append_iff.mp split with ⟨rfl, rest_⟩ | ⟨before', rfl, rfl⟩
        · obtain ⟨rfl, rfl⟩ := List.cons.inj rest_
          refine Or.inl ?_
          rw [roundRows, if_pos newRound, round, Option.elim_some]
          refine List.mem_map.mpr ⟨key.1, mem_sortKeys.mpr ?_, rfl⟩
          simpa [learned] using known_
        · refine Or.inr ⟨before', other, after, rfl, newRound, round, ?_, rfl⟩
          rwa [learned_cons, ← Finset.union_assoc] at known_

/-- A stored row was stored before, or is one of the rows. -/
theorem mem_of_lookup_storeRows {rows : List KeyedStake} {table : Table (Address × ℤ) OrchStake}
    {key : Address × ℤ} {row : OrchStake} (found : (storeRows rows table).lookup key = some row) :
    table.lookup key = some row ∨ (key, row) ∈ rows := by
  have grown : Table.Grown (fun key row => (key, row) ∈ rows) table (storeRows rows table) :=
    Table.grown_foldl_insertNew Prod.fst Prod.snd (fun _ member => member) table
  rcases grown.fresh key row found with earlier | ⟨_, member⟩
  · exact Or.inl earlier
  · exact Or.inr member

/-- Storing rows again changes nothing. -/
theorem storeRows_again {first again : List KeyedStake} (repeated : ∀ row ∈ again, row ∈ first)
    (table : Table (Address × ℤ) OrchStake) :
    storeRows again (storeRows first table) = storeRows first table := by
  refine Table.foldl_insertNew_eq_self Prod.fst Prod.snd fun keyed member => ?_
  refine (Table.mem_foldl_insertNew Prod.fst Prod.snd table).mpr (Or.inr ?_)
  exact ⟨keyed, repeated keyed member, rfl⟩

/-- A walk that goes over events again and stops before their end stores nothing. -/
theorem storeRows_shorter {early again part : List RawEvent} (shorter : part <+: again) :
    storeRows (walkRows reads log (learned reads early) part)
        (storeRows (walkRows reads log ∅ (early ++ again)) ∅) =
      storeRows (walkRows reads log ∅ (early ++ again)) ∅ := by
  obtain ⟨rest, rfl⟩ := shorter
  refine storeRows_again ?_ ∅
  intro row member
  rw [walkRows_append, walkRows_append, Finset.empty_union]
  exact List.mem_append_right _ (List.mem_append_left _ member)

/-- A walk that goes over events again and beyond their end stores the rows of the others. -/
theorem storeRows_longer {early again part : List RawEvent} (longer : again <+: part) :
    storeRows (walkRows reads log (learned reads early) part)
        (storeRows (walkRows reads log ∅ (early ++ again)) ∅) =
      storeRows (walkRows reads log ∅ (early ++ part)) ∅ := by
  obtain ⟨rest, rfl⟩ := longer
  have repeated : ∀ row ∈ walkRows reads log (learned reads early) again,
      row ∈ walkRows reads log ∅ (early ++ again) := by
    intro row member
    rw [walkRows_append, Finset.empty_union]
    exact List.mem_append_right _ member
  rw [walkRows_append, storeRows_append, storeRows_again repeated ∅, ← storeRows_append,
    ← List.append_assoc, walkRows_append ∅ (early ++ again), learned_append, Finset.empty_union]

/-- **What a walk stores**, when its rounds are given. -/
theorem profileWalk_rows {s : ProfileWalk} {events : List RawEvent} (given : RoundsGiven events) :
    (events.foldl (profileStep reads) s).db.orchStakeByRound =
      storeRows (walkRows reads s.db.rawProtocolEvents s.knownOrchs events)
        s.db.orchStakeByRound := by
  induction events generalizing s with
  | nil => rfl
  | cons e rest inductionHypothesis =>
      have sameLog : (profileStep reads s e).db.rawProtocolEvents = s.db.rawProtocolEvents := by
        obtain ⟨rows, frame⟩ := profileStep_frame reads s e
        rw [frame]
      have sameKnown : (profileStep reads s e).knownOrchs =
          s.knownOrchs ∪ (learns reads e).toFinset := by
        ext address
        rw [mem_knownOrchs_profileStep, Finset.mem_union, Option.mem_toFinset, Option.mem_def]
      have here : (profileStep reads s e).db.orchStakeByRound =
          storeRows (roundRows reads s.db.rawProtocolEvents s.knownOrchs e)
            s.db.orchStakeByRound := by
        unfold profileStep roundRows
        split_ifs with newRound
        · obtain ⟨round, found⟩ :=
            Option.isSome_iff_exists.mp (given e (List.mem_cons_self ..) newRound)
          simp only [found, Option.some_or, Option.elim_some, insertOrchStakeByRoundBatch,
            readSnapshots, storeRows, List.foldl_map]
          rfl
        · rfl
      rw [List.foldl_cons, inductionHypothesis fun other later =>
        given other (List.mem_cons_of_mem e later), sameLog, sameKnown, here, walkRows,
        storeRows_append]

end Walks

/-! ## Final events -/

/-- A table of final events.  The decoder gives the names of the lifecycle to logs of the
BondingManager only. -/
structure FinalLog where
  events : List RawEvent
  final : ∀ e ∈ events, e.finality = .finalized
  ofBondingManager : ∀ e ∈ events, isOrchLifecycle e.eventName = true →
    e.contractName = .BondingManager

/-- The events that the runs walk, in order. -/
def FinalLog.candidates (L : FinalLog) : List RawEvent :=
  orderBy RawEvent.position
    (L.events.filter fun e => e.eligible false && isOrchCandidate e.eventName)

/-- A log that has the final events up to a block, and no other final ones. -/
structure Shows (L : FinalLog) (horizon : ℤ) (log : List RawEvent) : Prop where
  upTo : log.filter (fun e => decide (e.blockNumber ≤ horizon)) =
    L.events.filter fun e => decide (e.blockNumber ≤ horizon)
  beyond : ∀ e ∈ log, horizon < e.blockNumber → e.finality ≠ .finalized

/-- The events of a list before a checkpoint. -/
def beforeCheckpoint (checkpoint : Option ℤ) (events : List RawEvent) : List RawEvent :=
  events.filter fun e => checkpoint.any fun block => decide (e.blockNumber < block)

section Logs

variable {L : FinalLog} {horizon : ℤ} {log : List RawEvent} {db : Db} {checkpoint : Option ℤ}
  {limit : ℕ}

theorem candidates_pairwise (L : FinalLog) :
    L.candidates.Pairwise fun a b => a.blockNumber ≤ b.blockNumber :=
  (orderBy_pairwise RawEvent.position _).imp fun {a b} ordered =>
    blockNumber_le_of_position a b ordered

theorem mem_candidates {e : RawEvent} : e ∈ L.candidates ↔
    e ∈ L.events ∧ e.isCanonical = true ∧ isOrchCandidate e.eventName = true := by
  rw [FinalLog.candidates, mem_orderBy, List.mem_filter, Bool.and_eq_true,
    RawEvent.eligible_false_iff]
  constructor
  · rintro ⟨listed, ⟨canonical, _⟩, candidate⟩
    exact ⟨listed, canonical, candidate⟩
  · rintro ⟨listed, canonical, candidate⟩
    exact ⟨listed, ⟨canonical, L.final e listed⟩, candidate⟩

/-- Both logs have the same events up to the horizon. -/
theorem Shows.mem_iff (shows_ : Shows L horizon log) {e : RawEvent}
    (within : e.blockNumber ≤ horizon) : e ∈ log ↔ e ∈ L.events := by
  have same := congrArg (e ∈ ·) shows_.upTo
  simpa only [List.mem_filter, within, decide_true, and_true, eq_iff_iff] using same

/-- What the runs can walk. -/
theorem Shows.orderBy_orchEvents (shows_ : Shows L horizon db.rawProtocolEvents) :
    orderBy RawEvent.position (orchEvents false db) =
      L.candidates.filter fun e => decide (e.blockNumber ≤ horizon) := by
  have visible : orchEvents false db =
      (db.rawProtocolEvents.filter fun e => decide (e.blockNumber ≤ horizon)).filter
        fun e => e.eligible false && isOrchCandidate e.eventName := by
    rw [orchEvents, List.filter_filter]
    refine List.filter_congr fun e listed => ?_
    cases final : e.eligible false with
    | false => rfl
    | true =>
        have within : e.blockNumber ≤ horizon := not_lt.mp fun later =>
          shows_.beyond e listed later ((RawEvent.eligible_false_iff e).mp final).2
        simp [within]
  rw [visible, shows_.upTo, FinalLog.candidates, filter_orderBy, List.filter_filter,
    List.filter_filter]
  congr 1
  exact List.filter_congr fun e _ => Bool.and_comm _ _

/-- The candidates before a checkpoint come before the others. -/
theorem beforeCheckpoint_append (L : FinalLog) (checkpoint : Option ℤ) :
    beforeCheckpoint checkpoint L.candidates ++
      fromCheckpoint (fun e => e.blockNumber) L.candidates checkpoint = L.candidates := by
  have split := @filter_append_filter_not _
    (fun e : RawEvent => checkpoint.any fun block => decide (e.blockNumber < block)) L.candidates
    ((candidates_pairwise L).imp fun {a b} ordered => by
      cases checkpoint with
      | none => simp
      | some block => simpa using ordered.trans_lt)
  have others : (fun e : RawEvent => !checkpoint.any fun block => decide (e.blockNumber < block)) =
      fun e => checkpoint.all fun block => decide (block ≤ e.blockNumber) := by
    funext e
    cases checkpoint with
    | none => rfl
    | some block => simp [← decide_not]
  rwa [others] at split

/-- What is final comes first. -/
theorem finalThrough_isPrefixOf {events : List RawEvent}
    (sorted : events.Pairwise fun a b => a.blockNumber ≤ b.blockNumber) (horizon : ℤ) :
    events.filter (fun e => decide (e.blockNumber ≤ horizon)) <+: events :=
  ⟨_, filter_append_filter_not (sorted.imp fun ordered below =>
    decide_eq_true (ordered.trans (of_decide_eq_true below)))⟩

/-- A batch is the first of what is final from the checkpoint on. -/
theorem Shows.profileBatch_eq (shows_ : Shows L horizon db.rawProtocolEvents) :
    profileBatch false limit db =
      ((fromCheckpoint (fun e => e.blockNumber) L.candidates
        (db.loadCheckpoint .stakerOrchProfile)).filter
          fun e => decide (e.blockNumber ≤ horizon)).take limit := by
  rw [profileBatch_eq_inclusivePage, inclusivePage, orderedBatch, fromCheckpoint,
    ← filter_orderBy, shows_.orderBy_orchEvents, fromCheckpoint, List.filter_filter,
    List.filter_filter]
  congr 2
  funext e
  exact Bool.and_comm _ _

theorem Shows.profileBatch_prefix (shows_ : Shows L horizon db.rawProtocolEvents) :
    profileBatch false limit db <+:
      fromCheckpoint (fun e => e.blockNumber) L.candidates
        (db.loadCheckpoint .stakerOrchProfile) := by
  rw [shows_.profileBatch_eq]
  exact (List.take_prefix _ _).trans
    (finalThrough_isPrefixOf ((candidates_pairwise L).sublist List.filter_sublist) horizon)

/-- What has been learned before the checkpoint. -/
theorem Shows.learned_beforeCheckpoint (reads : OrchReads)
    (shows_ : Shows L horizon db.rawProtocolEvents) (within : ∀ block ∈ checkpoint, block ≤ horizon) :
    learned reads (beforeCheckpoint checkpoint (orchEvents false db)) =
      learned reads (beforeCheckpoint checkpoint L.candidates) := by
  have same : ∀ e, e ∈ beforeCheckpoint checkpoint (orchEvents false db) ↔
      e ∈ beforeCheckpoint checkpoint L.candidates := by
    intro e
    have walked : e ∈ orchEvents false db ↔ e ∈ L.candidates ∧ e.blockNumber ≤ horizon := by
      rw [← @mem_orderBy _ _ _ RawEvent.position, shows_.orderBy_orchEvents, List.mem_filter, decide_eq_true_iff]
    rw [beforeCheckpoint, beforeCheckpoint, List.mem_filter, List.mem_filter, walked]
    cases checkpoint with
    | none => simp
    | some block =>
        have final := within block rfl
        simp only [Option.any_some, decide_eq_true_iff]
        constructor
        · exact fun ⟨⟨listed, _⟩, before⟩ => ⟨listed, before⟩
        · exact fun ⟨listed, before⟩ => ⟨⟨listed, (before.trans_le final).le⟩, before⟩
  ext address
  simp only [learned, List.mem_toFinset, List.mem_filterMap, same]

/-- The rows of a `NewRound` that is final do not depend on later blocks. -/
theorem Shows.snapshotRow_eq (reads : OrchReads) (shows_ : Shows L horizon log) {e : RawEvent}
    (within : e.blockNumber ≤ horizon) (orch : Address) :
    snapshotRow reads log e orch = snapshotRow reads L.events e orch := by
  have same : loadLastLifecycleEventAt orch e.blockNumber log =
      loadLastLifecycleEventAt orch e.blockNumber L.events := by
    have restricted : ∀ events : List RawEvent,
        loadLastLifecycleEventAt orch e.blockNumber events = loadLastLifecycleEventAt orch
          e.blockNumber (events.filter fun other => decide (other.blockNumber ≤ horizon)) := by
      intro events
      unfold loadLastLifecycleEventAt
      rw [List.filter_filter]
      congr 3
      refine List.filter_congr fun other _ => ?_
      by_cases earlier : other.blockNumber ≤ e.blockNumber
      · simp [earlier.trans within]
      · simp [earlier]
    rw [restricted log, restricted L.events, shows_.upTo]
  rw [snapshotRow, snapshotRow, readOrchestratorSnapshot, readOrchestratorSnapshot, same]

theorem Shows.walkRows_eq (reads : OrchReads) (shows_ : Shows L horizon log)
    {events : List RawEvent} (within : ∀ e ∈ events, e.blockNumber ≤ horizon)
    (known : Finset Address) :
    walkRows reads log known events = walkRows reads L.events known events := by
  induction events generalizing known with
  | nil => rfl
  | cons e rest inductionHypothesis =>
      have here : roundRows reads log known e = roundRows reads L.events known e := by
        unfold roundRows
        simp only [shows_.snapshotRow_eq reads (within e (List.mem_cons_self ..))]
      rw [walkRows, walkRows, here,
        inductionHypothesis fun other later => within other (List.mem_cons_of_mem e later)]

end Logs

/-! ## What a run knows -/

section Known

variable (reads : OrchReads) (limit : ℕ) (db : Db)

/-- The scan before the checkpoint of a run. -/
def scannedAddresses : List Address :=
  lifecycleAddresses (db.loadCheckpoint .stakerOrchProfile) db.rawProtocolEvents

/-- The profiles before the checkpoint of a run. -/
def profiledAddresses : Finset Address :=
  (db.loadCheckpoint .stakerOrchProfile).elim ∅ fun block => profiledBefore block db

/-- The walked events before the checkpoint of a run. -/
def earlierEvents : List RawEvent :=
  beforeCheckpoint (db.loadCheckpoint .stakerOrchProfile) (orchEvents false db)

/-- What has been introduced before a point in the batch of a run. -/
def introducedBefore (before : List RawEvent) : Finset Address :=
  learned reads (earlierEvents db) ∪ learned reads before

/-- A property of every `NewRound` in the batch of a run, given the events of the batch before it
and from it on. -/
def AtRounds (p : List RawEvent → List RawEvent → Prop) : Prop :=
  ∀ before e after, profileBatch false limit db = before ++ e :: after →
    e.eventName = .NewRound → p before (e :: after)

/-- When a run knows at its `NewRound` events just what has been introduced before. -/
structure KnowsInOrder : Prop where
  rounds : RoundsGiven (profileBatch false limit db)
  /-- The batch names no orchestrator after the event that has not been introduced. -/
  ahead : AtRounds limit db fun before rest =>
    ∀ address ∈ namedByBatch rest, address ∈ introducedBefore reads db before
  /-- The scan finds no address that has not been introduced. -/
  scanned : AtRounds limit db fun before _ =>
    ∀ address ∈ scannedAddresses db, address ∈ introducedBefore reads db before
  /-- What a TransferBond before the checkpoint resolves to is found. -/
  recalled : AtRounds limit db fun before _ =>
    ∀ e ∈ earlierEvents db, e.eventName = .TransferBond →
      ∀ address ∈ resolveTransferBondDelegate reads e,
        address ∈ scannedAddresses db ∨ address ∈ profiledAddresses db ∨
          address ∈ namedByBatch (profileBatch false limit db) ∨ address ∈ learned reads before

variable {reads limit db}

theorem knownFirst_eq : knownFirst false limit db =
    profiledAddresses db ∪ (scannedAddresses db).toFinset ∪
      (namedByBatch (profileBatch false limit db)).toFinset := rfl

theorem mem_learned {events : List RawEvent} {address : Address} :
    address ∈ learned reads events ↔ ∃ e ∈ events, learns reads e = some address := by
  rw [learned, List.mem_toFinset, List.mem_filterMap]

theorem mem_namedByBatch {events : List RawEvent} {address : Address} :
    address ∈ namedByBatch events ↔
      ∃ e ∈ events, e.eventName ≠ .TransferBond ∧ e.toAddress = some address := by
  simp only [namedByBatch, List.mem_filterMap, List.mem_filter, decide_eq_true_iff, and_assoc]

/-- Another event than a `NewRound` or a TransferBond introduces the address it names. -/
theorem learns_of_named {e : RawEvent} (round : e.eventName ≠ .NewRound)
    (transfer : e.eventName ≠ .TransferBond) : learns reads e = e.toAddress := by
  unfold learns
  split
  · next same => exact absurd same round
  · next same => exact absurd same transfer
  · rfl

/-- A batch with one `NewRound`. -/
theorem atRounds_single {p : List RawEvent → List RawEvent → Prop} {first rest : List RawEvent}
    {round : RawEvent} (batch : profileBatch false limit db = first ++ round :: rest)
    (noOther : ∀ e ∈ first ++ rest, e.eventName ≠ .NewRound) (holds : p first (round :: rest)) :
    AtRounds limit db p := by
  intro before e after split newRound
  rw [batch, List.append_eq_append_iff] at split
  rcases split with ⟨between, rfl, same⟩ | ⟨between, rfl, same⟩
  · rcases List.cons_eq_append_iff.mp same with ⟨rfl, whole⟩ | ⟨later, rfl, rfl⟩
    · rwa [List.append_nil, whole]
    · exact absurd newRound (noOther e (by simp))
  · rcases List.cons_eq_append_iff.mp same with ⟨rfl, whole⟩ | ⟨later, rfl, rfl⟩
    · rwa [List.append_nil, whole] at holds
    · exact absurd newRound (noOther e (by simp))

/-- A batch without a `NewRound`. -/
theorem atRounds_none {p : List RawEvent → List RawEvent → Prop}
    (none : ∀ e ∈ profileBatch false limit db, e.eventName ≠ .NewRound) :
    AtRounds limit db p := by
  intro before e after split newRound
  exact absurd newRound (none e (by rw [split]; simp))

/-- What the batch names before an event has been introduced, if every `NewRound` names nothing
new. -/
theorem named_introduced (inOrder : AtRounds limit db fun before rest =>
      ∀ address ∈ namedByBatch rest, address ∈ introducedBefore reads db before)
    {before after : List RawEvent} {e : RawEvent}
    (split : profileBatch false limit db = before ++ e :: after) {address : Address}
    (named : address ∈ namedByBatch before) : address ∈ introducedBefore reads db before := by
  obtain ⟨other, listed, transfer, named_⟩ := mem_namedByBatch.mp named
  by_cases round : other.eventName = .NewRound
  · obtain ⟨first, between, rfl⟩ := List.append_of_mem listed
    have there := inOrder first other (between ++ e :: after) (by simp [split]) round address
      (mem_namedByBatch.mpr ⟨other, List.mem_cons_self .., transfer, named_⟩)
    rw [introducedBefore, learned_append, ← Finset.union_assoc]
    exact Finset.mem_union_left _ there
  · refine Finset.mem_union_right _ (mem_learned.mpr ⟨other, listed, ?_⟩)
    rw [learns_of_named round transfer, named_]

variable {L : FinalLog} {horizon : ℤ}

/-- What the events before the checkpoint name is scanned. -/
theorem Shows.scanned_of_named (shows_ : Shows L horizon db.rawProtocolEvents)
    (within : ∀ block ∈ db.loadCheckpoint .stakerOrchProfile, block ≤ horizon) {e : RawEvent}
    (earlier : e ∈ earlierEvents db) (round : e.eventName ≠ .NewRound) {address : Address}
    (named : e.toAddress = some address) : address ∈ scannedAddresses db := by
  obtain ⟨walked, before⟩ := List.mem_filter.mp earlier
  obtain ⟨listed, candidate⟩ := List.mem_filter.mp walked
  rw [Bool.and_eq_true, RawEvent.eligible_false_iff, isOrchCandidate, Bool.or_eq_true,
    decide_eq_true_iff] at candidate
  obtain ⟨⟨canonical, _⟩, lifecycle⟩ := candidate
  have lifecycle := lifecycle.resolve_right round
  rw [scannedAddresses, lifecycleAddresses]
  cases stored : db.loadCheckpoint .stakerOrchProfile with
  | none =>
      rw [stored] at before
      cases before
  | some block =>
      rw [stored, Option.any_some, decide_eq_true_iff] at before
      have final := before.le.trans (within block stored)
      refine List.mem_filterMap.mpr ⟨e, List.mem_filter.mpr ⟨listed, ?_⟩, named⟩
      have contract := L.ofBondingManager e ((shows_.mem_iff final).mp listed) lifecycle
      simp [canonical, contract, lifecycle, before]

/-- **A run knows at its `NewRound` events just what has been introduced before, exactly if it is
in order.** -/
theorem knownAt_eq_iff (shows_ : Shows L horizon db.rawProtocolEvents)
    (within : ∀ block ∈ db.loadCheckpoint .stakerOrchProfile, block ≤ horizon)
    (profiled : ∀ address ∈ profiledAddresses db, address ∈ learned reads (earlierEvents db))
    (rounds : RoundsGiven (profileBatch false limit db)) :
    (AtRounds limit db fun before _ => knownFirst false limit db ∪ learned reads before =
      introducedBefore reads db before) ↔ KnowsInOrder reads limit db := by
  constructor
  · intro same
    refine ⟨rounds, ?_, ?_, ?_⟩
    · intro before e after split newRound address named
      rw [← same before e after split newRound, knownFirst_eq]
      refine Finset.mem_union_left _ (Finset.mem_union_right _ (List.mem_toFinset.mpr ?_))
      obtain ⟨other, listed, names⟩ := mem_namedByBatch.mp named
      exact mem_namedByBatch.mpr ⟨other, split ▸ List.mem_append_right _ listed, names⟩
    · intro before e after split newRound address found
      rw [← same before e after split newRound, knownFirst_eq]
      exact Finset.mem_union_left _ (Finset.mem_union_left _
        (Finset.mem_union_right _ (List.mem_toFinset.mpr found)))
    · intro before e after split newRound other earlier transfer address resolved
      have introduced : address ∈ introducedBefore reads db before := by
        refine Finset.mem_union_left _ (mem_learned.mpr ⟨other, earlier, ?_⟩)
        simp only [learns, transfer]
        exact resolved
      rw [← same before e after split newRound, knownFirst_eq] at introduced
      simp only [Finset.mem_union, List.mem_toFinset] at introduced
      rcases introduced with ((profile | scan) | batch) | walk
      · exact Or.inr (Or.inl profile)
      · exact Or.inl scan
      · exact Or.inr (Or.inr (Or.inl batch))
      · exact Or.inr (Or.inr (Or.inr walk))
  · intro inOrder before e after split newRound
    refine Finset.Subset.antisymm ?_ ?_
    · intro address known
      rw [knownFirst_eq] at known
      simp only [Finset.mem_union, List.mem_toFinset] at known
      rcases known with ((profile | scan) | batch) | walk
      · exact Finset.mem_union_left _ (profiled address profile)
      · exact inOrder.scanned before e after split newRound address scan
      · obtain ⟨other, listed, names⟩ := mem_namedByBatch.mp batch
        rw [split] at listed
        rcases List.mem_append.mp listed with earlier | later
        · exact named_introduced inOrder.ahead split (mem_namedByBatch.mpr ⟨other, earlier, names⟩)
        · exact inOrder.ahead before e after split newRound address
            (mem_namedByBatch.mpr ⟨other, later, names⟩)
      · exact Finset.mem_union_right _ walk
    · intro address introduced
      rcases Finset.mem_union.mp introduced with earlier | walk
      · obtain ⟨other, listed, learns_⟩ := mem_learned.mp earlier
        rw [knownFirst_eq]
        simp only [Finset.mem_union, List.mem_toFinset]
        by_cases transfer : other.eventName = .TransferBond
        · have resolved : address ∈ resolveTransferBondDelegate reads other := by
            simp only [learns, transfer] at learns_
            exact learns_
          rcases inOrder.recalled before e after split newRound other listed transfer address
            resolved with scan | profile | batch | walk
          · exact Or.inl (Or.inl (Or.inr scan))
          · exact Or.inl (Or.inl (Or.inl profile))
          · exact Or.inl (Or.inr batch)
          · exact Or.inr walk
        · have round : other.eventName ≠ .NewRound := by
            intro same
            rw [learns, same] at learns_
            cases learns_
          rw [learns_of_named round transfer] at learns_
          exact Or.inl (Or.inl (Or.inr (shows_.scanned_of_named within listed round learns_)))
      · exact Finset.mem_union_right _ walk

end Known

/-! ## The system -/

/-- The database, the last block that is final, and whether the last run was caught up. -/
structure Polled where
  db : Db
  horizon : ℤ
  caughtUp : Bool

inductive Poll where
  /-- The blocks up to a horizon are final; the log is given. -/
  | finalize (horizon : ℤ) (log : List RawEvent)
  | profile (limit : ℕ)
  /-- A run that a failing read ends. -/
  | interrupt (limit completed : ℕ)
  /-- The view `orchestrator_profile` is refreshed. -/
  | refresh

namespace Polling

variable (reads : OrchReads) (L : FinalLog)

def step (s : Polled) : Poll → Option Polled
  | .finalize horizon log =>
      some ⟨{ s.db with rawProtocolEvents := log }, horizon, false⟩
  | .profile limit =>
      let run := runProfileBackfill reads false limit s.db
      some ⟨run.1, s.horizon, run.2.caughtUp⟩
  | .interrupt limit completed =>
      some ⟨interruptProfileBackfill reads false limit completed s.db, s.horizon, false⟩
  | .refresh => some { s with db := refreshOrchestratorProfile s.db }

/-- Blocks become final in order, with the events of the final log. -/
def follows (s : Polled) : Poll → Prop
  | .finalize horizon log => s.horizon ≤ horizon ∧ Shows L horizon log
  | _ => True

/-- And every run knows what has been introduced. -/
def followsInOrder (s : Polled) : Poll → Prop
  | .finalize horizon log => s.horizon ≤ horizon ∧ Shows L horizon log
  | .profile limit => KnowsInOrder reads limit s.db
  | .interrupt limit _ => KnowsInOrder reads limit s.db
  | .refresh => True

/-- No run has written anything. -/
structure Fresh (s : Polled) : Prop where
  shows_ : Shows L s.horizon s.db.rawProtocolEvents
  checkpoint : s.db.loadCheckpoint .stakerOrchProfile = none
  rows : s.db.orchStakeByRound = ∅
  profiles : s.db.orchestratorProfile = ∅
  caughtUp : s.caughtUp = false

/-- All final events have been processed. -/
structure Done (s : Polled) : Prop where
  all : ∀ e ∈ L.events, e.blockNumber ≤ s.horizon
  caughtUp : s.caughtUp = true

/-! ## The invariant -/

/-- The runs have walked a prefix of the final events in order. -/
structure Walked (walked : List RawEvent) (s : Polled) : Prop where
  isPrefix : walked <+: L.candidates
  rows : s.db.orchStakeByRound = storeRows (walkRows reads L.events ∅ walked) ∅
  shows_ : Shows L s.horizon s.db.rawProtocolEvents
  final : ∀ e ∈ walked, e.blockNumber ≤ s.horizon
  within : ∀ block ∈ s.db.loadCheckpoint .stakerOrchProfile, block ≤ s.horizon
  earlier : beforeCheckpoint (s.db.loadCheckpoint .stakerOrchProfile) L.candidates <+: walked
  /-- A profile comes from a `NewRound` after its orchestrator had been introduced. -/
  profiled : ∀ address profile, s.db.orchestratorProfile.lookup address = some profile →
    ∃ before e after, walked = before ++ e :: after ∧ e.blockNumber = profile.blockNumber ∧
      address ∈ learned reads before
  done : s.caughtUp = true →
    L.candidates.filter (fun e => decide (e.blockNumber ≤ s.horizon)) <+: walked

variable {reads L} {s : Polled} {walked : List RawEvent}

theorem walked_fresh (fresh : Fresh L s) : Walked reads L [] s := by
  refine ⟨List.nil_prefix, ?_, fresh.shows_, ?_, ?_, ?_, ?_, ?_⟩
  · rw [fresh.rows]
    rfl
  · exact fun e member => absurd member List.not_mem_nil
  · intro block stored
    rw [fresh.checkpoint] at stored
    cases stored
  · rw [fresh.checkpoint]
    exact List.filter_eq_nil_iff.mpr (fun _ _ => Bool.false_ne_true) ▸ List.nil_prefix
  · intro address profile found
    rw [fresh.profiles, Finmap.lookup_empty] at found
    cases found
  · intro caughtUp
    rw [fresh.caughtUp] at caughtUp
    cases caughtUp

/-- What a profile before the checkpoint names has been learned before it. -/
theorem Walked.profiled_learned (inv : Walked reads L walked s) {address : Address}
    (member : address ∈ profiledAddresses s.db) :
    address ∈ learned reads (earlierEvents s.db) := by
  rw [earlierEvents, inv.shows_.learned_beforeCheckpoint reads inv.within]
  unfold profiledAddresses at member
  cases stored : s.db.loadCheckpoint .stakerOrchProfile with
  | none =>
      rw [stored, Option.elim_none] at member
      exact absurd member (Finset.notMem_empty address)
  | some block =>
      rw [stored, Option.elim_some, profiledBefore, Finset.mem_filter] at member
      obtain ⟨profile, found, below⟩ := Option.any_eq_true _ _ |>.mp member.2
      obtain ⟨before, e, after, split, atBlock, introduced⟩ := inv.profiled address profile found
      obtain ⟨other, listed, learns_⟩ := mem_learned.mp introduced
      refine mem_learned.mpr ⟨other, List.mem_filter.mpr ⟨?_, ?_⟩, learns_⟩
      · exact inv.isPrefix.subset (split ▸ List.mem_append_left _ listed)
      · have sorted := (candidates_pairwise L).sublist inv.isPrefix.sublist
        rw [split] at sorted
        have ordered := (List.pairwise_append.mp sorted).2.2 other listed e
          (List.mem_cons_self ..)
        rw [atBlock] at ordered
        exact decide_eq_true (ordered.trans_lt (of_decide_eq_true below))

/-- What a run walks comes after the events before its checkpoint. -/
theorem Walked.earlier_batch (inv : Walked reads L walked s) (limit : ℕ) :
    beforeCheckpoint (s.db.loadCheckpoint .stakerOrchProfile) L.candidates ++
      profileBatch false limit s.db <+: L.candidates := by
  conv_rhs => rw [← beforeCheckpoint_append L (s.db.loadCheckpoint .stakerOrchProfile)]
  exact (List.prefix_append_right_inj _).mpr inv.shows_.profileBatch_prefix

/-- **A walk over a part of a batch** stores the rows of a longer prefix. -/
theorem Walked.storeRows_batch (inv : Walked reads L walked s) {limit : ℕ}
    (inOrder : KnowsInOrder reads limit s.db) {part : List RawEvent}
    (isPart : part <+: profileBatch false limit s.db) :
    ∃ walked', walked <+: walked' ∧
      beforeCheckpoint (s.db.loadCheckpoint .stakerOrchProfile) L.candidates ++ part <+: walked' ∧
      walked' <+: L.candidates ∧ (∀ e ∈ walked', e.blockNumber ≤ s.horizon) ∧
      (part.foldl (profileStep reads) (startWalk (s.db.loadCheckpoint .stakerOrchProfile)
        (profileBatch false limit s.db) s.db)).db.orchStakeByRound =
          storeRows (walkRows reads L.events ∅ walked') ∅ := by
  have finalPart : ∀ e ∈ part, e.blockNumber ≤ s.horizon := by
    intro e member
    have listed := isPart.subset member
    rw [inv.shows_.profileBatch_eq] at listed
    exact of_decide_eq_true (List.mem_filter.mp (List.mem_of_mem_take listed)).2
  have given : RoundsGiven part := fun e member => inOrder.rounds e (isPart.subset member)
  -- the run knows what the walk over the events before its checkpoint has learned
  have known : walkRows reads L.events (knownFirst false limit s.db) part =
      walkRows reads L.events (learned reads (beforeCheckpoint
        (s.db.loadCheckpoint .stakerOrchProfile) L.candidates)) part := by
    refine walkRows_congr ?_
    intro before e after split newRound
    obtain ⟨rest, whole⟩ := isPart
    have inBatch : profileBatch false limit s.db = before ++ e :: (after ++ rest) := by
      rw [← whole, split, List.append_assoc, List.cons_append]
    have same := (knownAt_eq_iff inv.shows_ inv.within (fun _ => inv.profiled_learned)
      inOrder.rounds).mpr inOrder before e _ inBatch newRound
    rw [same, introducedBefore, earlierEvents,
      inv.shows_.learned_beforeCheckpoint reads inv.within]
  have stored : (part.foldl (profileStep reads) (startWalk
      (s.db.loadCheckpoint .stakerOrchProfile) (profileBatch false limit s.db)
        s.db)).db.orchStakeByRound =
      storeRows (walkRows reads L.events (learned reads (beforeCheckpoint
        (s.db.loadCheckpoint .stakerOrchProfile) L.candidates)) part)
        (storeRows (walkRows reads L.events ∅ walked) ∅) := by
    rw [profileWalk_rows given]
    have started : walkRows reads s.db.rawProtocolEvents (knownFirst false limit s.db) part =
        walkRows reads L.events (knownFirst false limit s.db) part :=
      inv.shows_.walkRows_eq reads finalPart _
    exact congrArg₂ storeRows (started.trans known) inv.rows
  have partPrefix : beforeCheckpoint (s.db.loadCheckpoint .stakerOrchProfile) L.candidates ++
      part <+: L.candidates :=
    ((List.prefix_append_right_inj _).mpr isPart).trans (inv.earlier_batch limit)
  obtain ⟨again, earlierWalked⟩ := inv.earlier
  have walkedPrefix := inv.isPrefix
  rw [← earlierWalked] at walkedPrefix stored ⊢
  rcases List.prefix_or_prefix_of_prefix partPrefix walkedPrefix with shorter | longer
  · refine ⟨_, List.prefix_rfl, shorter, walkedPrefix, fun e member => ?_, ?_⟩
    · exact inv.final e (earlierWalked ▸ member)
    · rw [stored]
      exact storeRows_shorter ((List.prefix_append_right_inj _).mp shorter)
  · refine ⟨_, longer, List.prefix_rfl, partPrefix, fun e member => ?_, ?_⟩
    · rcases List.mem_append.mp member with early | inPart
      · exact inv.final e (inv.earlier.subset early)
      · exact finalPart e inPart
    · rw [stored]
      exact storeRows_longer ((List.prefix_append_right_inj _).mp longer)

/-! ## One step -/

/-- The events before a checkpoint are a prefix. -/
theorem beforeCheckpoint_isPrefixOf (L : FinalLog) (checkpoint : Option ℤ) :
    beforeCheckpoint checkpoint L.candidates <+: L.candidates :=
  ⟨_, beforeCheckpoint_append L checkpoint⟩

/-- A profile stays one of a longer prefix. -/
theorem Walked.profiled_of_prefix (inv : Walked reads L walked s) {walked' : List RawEvent}
    (longer : walked <+: walked') (address : Address) (profile : OrchestratorProfile)
    (found : s.db.orchestratorProfile.lookup address = some profile) :
    ∃ before e after, walked' = before ++ e :: after ∧ e.blockNumber = profile.blockNumber ∧
      address ∈ learned reads before := by
  obtain ⟨before, e, after, split, introduced⟩ := inv.profiled address profile found
  obtain ⟨rest, rfl⟩ := longer
  exact ⟨before, e, after ++ rest, by rw [split, List.append_assoc, List.cons_append], introduced⟩

/-- A short batch is all that is final. -/
theorem Walked.final_of_short (inv : Walked reads L walked s) {limit : ℕ}
    (short : (profileBatch false limit s.db).length < limit) :
    beforeCheckpoint (s.db.loadCheckpoint .stakerOrchProfile) L.candidates ++
        profileBatch false limit s.db =
      L.candidates.filter fun e => decide (e.blockNumber ≤ s.horizon) := by
  have early : (beforeCheckpoint (s.db.loadCheckpoint .stakerOrchProfile) L.candidates).filter
      (fun e => decide (e.blockNumber ≤ s.horizon)) =
        beforeCheckpoint (s.db.loadCheckpoint .stakerOrchProfile) L.candidates :=
    List.filter_eq_self.mpr fun e member =>
      decide_eq_true (inv.final e (inv.earlier.subset member))
  rw [inv.shows_.profileBatch_eq, List.length_take] at short
  have whole := List.take_of_length_le (min_lt_iff.mp short |>.resolve_left (lt_irrefl limit)).le
  rw [inv.shows_.profileBatch_eq, whole]
  conv_rhs => rw [← beforeCheckpoint_append L (s.db.loadCheckpoint .stakerOrchProfile)]
  rw [List.filter_append, early]

/-- The table after a run. -/
theorem orchStakeByRound_run (limit : ℕ) (db : Db) :
    (runProfileBackfill reads false limit db).1.orchStakeByRound =
      ((profileBatch false limit db).foldl (profileStep reads)
        (startWalk (db.loadCheckpoint .stakerOrchProfile) (profileBatch false limit db)
          db)).db.orchStakeByRound := by
  unfold runProfileBackfill profileBatch
  dsimp only
  cases ((fetchOrchCandidatesAfter false (db.loadCheckpoint .stakerOrchProfile) limit
    db).getLast?.map fun e => e.blockNumber).or (db.loadCheckpoint .stakerOrchProfile) <;> rfl

theorem walked_profile (inv : Walked reads L walked s) {limit : ℕ}
    (inOrder : KnowsInOrder reads limit s.db) :
    ∃ walked', Walked reads L walked' ⟨(runProfileBackfill reads false limit s.db).1, s.horizon,
      (runProfileBackfill reads false limit s.db).2.caughtUp⟩ := by
  obtain ⟨walked', longer, covers, isPrefix, final, stored⟩ :=
    inv.storeRows_batch inOrder List.prefix_rfl
  obtain ⟨rows, checkpoints, frame⟩ : ∃ rows checkpoints,
      (runProfileBackfill reads false limit s.db).1 =
        { s.db with orchStakeByRound := rows, indexerCheckpoints := checkpoints } :=
    runProfileBackfill_frame reads
  have sameLog : (runProfileBackfill reads false limit s.db).1.rawProtocolEvents =
      s.db.rawProtocolEvents := by rw [frame]
  have sameProfiles : (runProfileBackfill reads false limit s.db).1.orchestratorProfile =
      s.db.orchestratorProfile := by rw [frame]
  have checkpoint := @loadCheckpoint_runProfileBackfill reads false limit s.db
  refine ⟨walked', isPrefix, (orchStakeByRound_run limit s.db).trans stored, ?_, final, ?_, ?_, ?_,
    ?_⟩
  · rw [sameLog]
    exact inv.shows_
  · intro block at_
    cases isLast : (profileBatch false limit s.db).getLast? with
    | none =>
        rw [isLast] at checkpoint
        exact inv.within block (checkpoint.symm.trans at_)
    | some last =>
        rw [isLast] at checkpoint
        rw [checkpoint] at at_
        cases at_
        have lastFinal : last.blockNumber ≤ s.horizon :=
          final last (covers.subset (List.mem_append_right _ (List.mem_of_getLast? isLast)))
        cases previous : s.db.loadCheckpoint .stakerOrchProfile with
        | none => exact lastFinal
        | some before => exact max_le (inv.within before previous) lastFinal
  · cases isLast : (profileBatch false limit s.db).getLast? with
    | none =>
        rw [isLast] at checkpoint
        rw [checkpoint]
        exact (List.prefix_append _ _).trans covers
    | some last =>
        rw [isLast] at checkpoint
        have inBatch := List.mem_of_getLast? isLast
        have raisedTo := raised_of_mem (inv.shows_.profileBatch_prefix.subset inBatch)
        have atLast : (s.db.loadCheckpoint .stakerOrchProfile).elim last.blockNumber
            (fun previous => max previous last.blockNumber) = last.blockNumber := raisedTo
        have atBlock : (runProfileBackfill reads false limit s.db).1.loadCheckpoint
            .stakerOrchProfile = some last.blockNumber := checkpoint.trans (congrArg some atLast)
        rw [atBlock]
        rcases List.prefix_or_prefix_of_prefix (beforeCheckpoint_isPrefixOf L (some last.blockNumber))
          isPrefix with before | beyond
        · exact before
        · -- the last event of the batch is not before its own block
          have listed := beyond.subset (covers.subset (List.mem_append_right _ inBatch))
          exact absurd (of_decide_eq_true (List.mem_filter.mp listed).2) (lt_irrefl _)
  · rw [sameProfiles]
    exact inv.profiled_of_prefix longer
  · intro caughtUp
    have short : (profileBatch false limit s.db).length < limit := of_decide_eq_true caughtUp
    rw [← inv.final_of_short short]
    exact covers

theorem walked_interrupt (inv : Walked reads L walked s) {limit : ℕ} (completed : ℕ)
    (inOrder : KnowsInOrder reads limit s.db) :
    ∃ walked', Walked reads L walked'
      ⟨interruptProfileBackfill reads false limit completed s.db, s.horizon, false⟩ := by
  obtain ⟨walked', longer, covers, isPrefix, final, stored⟩ :=
    inv.storeRows_batch inOrder (List.take_prefix completed (profileBatch false limit s.db))
  obtain ⟨rows, frame⟩ : ∃ rows, interruptProfileBackfill reads false limit completed s.db =
      { s.db with orchStakeByRound := rows } := interruptProfileBackfill_frame reads
  have sameLog : (interruptProfileBackfill reads false limit completed s.db).rawProtocolEvents =
      s.db.rawProtocolEvents := by rw [frame]
  have sameProfiles : (interruptProfileBackfill reads false limit completed
      s.db).orchestratorProfile = s.db.orchestratorProfile := by rw [frame]
  have sameCheckpoint : (interruptProfileBackfill reads false limit completed s.db).loadCheckpoint
      .stakerOrchProfile = s.db.loadCheckpoint .stakerOrchProfile := by
    rw [frame]
    rfl
  refine ⟨walked', isPrefix, stored, ?_, final, ?_, ?_, ?_, fun caughtUp => nomatch caughtUp⟩
  · rw [sameLog]
    exact inv.shows_
  · rw [sameCheckpoint]
    exact inv.within
  · rw [sameCheckpoint]
    exact (List.prefix_append _ _).trans covers
  · rw [sameProfiles]
    exact inv.profiled_of_prefix longer

theorem walked_refresh (inv : Walked reads L walked s) :
    Walked reads L walked { s with db := refreshOrchestratorProfile s.db } := by
  refine ⟨inv.isPrefix, inv.rows, inv.shows_, inv.final, inv.within, inv.earlier, ?_, inv.done⟩
  intro address profile found
  rw [refreshOrchestratorProfile, Table.lookup_rewriteKeys] at found
  split_ifs at found with listed
  · obtain ⟨round, _, fromRow⟩ := Option.bind_eq_some_iff.mp found
    obtain ⟨row, stored, rfl⟩ := Option.map_eq_some_iff.mp fromRow
    rw [inv.rows] at stored
    rcases mem_of_lookup_storeRows stored with nothing | member
    · rw [Finmap.lookup_empty] at nothing
      cases nothing
    · obtain ⟨before, e, after, split, _, _, known, rfl⟩ := mem_walkRows.mp member
      rw [Finset.empty_union] at known
      exact ⟨before, e, after, split, rfl, known⟩
  · rw [Finmap.lookup_empty] at found
    cases found

/-- **The step lemma.** -/
theorem walked_step (s : Polled) (a : Poll) (s' : Polled)
    (inv : ∃ walked, Walked reads L walked s) (guard : followsInOrder reads L s a)
    (stepped : step reads s a = some s') : ∃ walked, Walked reads L walked s' := by
  obtain ⟨walked, inv⟩ := inv
  cases a with
  | finalize horizon log =>
      cases stepped
      obtain ⟨later, shows_⟩ := guard
      refine ⟨walked, inv.isPrefix, inv.rows, shows_, ?_, ?_, inv.earlier, inv.profiled,
        fun caughtUp => nomatch caughtUp⟩
      · exact fun e member => (inv.final e member).trans later
      · exact fun block stored => (inv.within block stored).trans later
  | profile limit =>
      cases stepped
      exact walked_profile inv guard
  | interrupt limit completed =>
      cases stepped
      exact walked_interrupt inv completed guard
  | refresh =>
      cases stepped
      exact ⟨walked, walked_refresh inv⟩

/-- The rows after all final events have been processed in order. -/
theorem rows_of_run {start : Polled} (fresh : Fresh L start)
    (run : GuardedRun (step reads) (followsInOrder reads L) start s) (done : Done L s) :
    s.db.orchStakeByRound = storeRows (walkRows reads L.events ∅ L.candidates) ∅ := by
  obtain ⟨walked, inv⟩ := run.invariant walked_step ⟨[], walked_fresh fresh⟩
  have all : L.candidates.filter (fun e => decide (e.blockNumber ≤ s.horizon)) = L.candidates :=
    List.filter_eq_self.mpr fun e member => decide_eq_true (done.all e (mem_candidates.mp member).1)
  have covered := inv.done done.caughtUp
  rw [all] at covered
  rw [inv.rows, inv.isPrefix.eq_of_length_le covered.length_le]

/-- **Any two schedules that process the final events in order leave the same rows**, however
their batches are cut, if every run knows at its `NewRound` events just what has been introduced
before. -/
theorem profileRuns_agree (reads : OrchReads) (L : FinalLog) {start start' s s' : Polled}
    (fresh : Fresh L start) (fresh' : Fresh L start')
    (run : GuardedRun (step reads) (followsInOrder reads L) start s)
    (run' : GuardedRun (step reads) (followsInOrder reads L) start' s')
    (done : Done L s) (done' : Done L s') :
    s.db.orchStakeByRound = s'.db.orchStakeByRound := by
  rw [rows_of_run fresh run done, rows_of_run fresh' run' done']

/-! ## An orchestrator that appears after a round -/

/-- A final event in a block of its own. -/
def finalEvent (contract : ContractKind) (name : EventName) (decoded : Decoded)
    (toAddress : Option Address) (block : ℕ) : RawEvent where
  txHash := "0xt"
  logIndex := 0
  blockNumber := block
  blockHash := "0xb"
  blockTimestamp := 0
  contractName := contract
  eventName := name
  asset := none
  amountNormalized := none
  isValuable := false
  fromAddress := none
  toAddress := toAddress
  decoded := decoded
  amount_of_asset := fun absurd => absurd
  id := block
  finality := .finalized
  isCanonical := true
  finalizedAt := some 0

def activated (orch : Address) (block : ℕ) : RawEvent :=
  finalEvent .BondingManager .TranscoderActivated .none (some orch) block

def roundStarted (round block : ℕ) : RawEvent :=
  finalEvent .RoundsManager .NewRound (.newRound round) none block

def bonded (orch : Address) (block : ℕ) : RawEvent :=
  finalEvent .BondingManager .Bond .none (some orch) block

/-- One orchestrator is active in the round, another one two blocks later. -/
def lateOrchestrator : FinalLog where
  events := [activated "0xa" 1, roundStarted 1 2, bonded "0xa" 3, activated "0xb" 4]
  final := by decide
  ofBondingManager := by decide

/-- Nothing has been written, and some events can be seen. -/
def fresh (horizon : ℤ) (log : List RawEvent) : Polled :=
  ⟨{ Db.empty with rawProtocolEvents := log }, horizon, false⟩

theorem fresh_of_shows {L : FinalLog} {horizon : ℤ} {log : List RawEvent}
    (shows_ : Shows L horizon log) : Fresh L (fresh horizon log) :=
  ⟨shows_, rfl, rfl, rfl, rfl⟩

/-- All at once. -/
def atOnce (L : FinalLog) (horizon : ℤ) : Polled :=
  let seen := fresh horizon L.events
  let run := runProfileBackfill zeroReads false orchProfileBatchLimit seen.db
  ⟨run.1, horizon, run.2.caughtUp⟩

/-- First the blocks up to some block, then the others. -/
def inTwo (L : FinalLog) (first horizon : ℤ) : Polled :=
  let seen := fresh first (L.events.filter fun e => decide (e.blockNumber ≤ first))
  let early := runProfileBackfill zeroReads false orchProfileBatchLimit seen.db
  let run := runProfileBackfill zeroReads false orchProfileBatchLimit
    { early.1 with rawProtocolEvents := L.events }
  ⟨run.1, horizon, run.2.caughtUp⟩

/-- **The rows of a round depend on where a batch ends.** -/
theorem snapshots_dependOnPolling : ¬ ∀ (reads : OrchReads) (L : FinalLog)
    (start start' s s' : Polled), Fresh L start → Fresh L start' →
      GuardedRun (step reads) (follows L) start s → GuardedRun (step reads) (follows L) start' s' →
      Done L s → Done L s' → s.db.orchStakeByRound = s'.db.orchStakeByRound := by
  intro agree
  have same := agree zeroReads lateOrchestrator (fresh 4 lateOrchestrator.events)
    (fresh 3 (lateOrchestrator.events.filter fun e => decide (e.blockNumber ≤ 3)))
    (atOnce lateOrchestrator 4) (inTwo lateOrchestrator 3 4)
    (fresh_of_shows ⟨rfl, by decide⟩) (fresh_of_shows ⟨by decide +kernel, by decide +kernel⟩)
    (Relation.ReflTransGen.single ⟨.profile orchProfileBatchLimit, trivial, rfl⟩)
    (Relation.ReflTransGen.head ⟨.profile orchProfileBatchLimit, trivial, rfl⟩
      (Relation.ReflTransGen.head
        ⟨.finalize 4 lateOrchestrator.events, ⟨by decide, rfl, by decide⟩, rfl⟩
        (Relation.ReflTransGen.single ⟨.profile orchProfileBatchLimit, trivial, rfl⟩)))
    ⟨by decide, by decide +kernel⟩ ⟨by decide, by decide +kernel⟩
  have row := congrArg (fun rows => (Finmap.lookup ("0xb", 1) rows).isSome) same
  revert row
  decide +kernel

/-- The one orchestrator is active before the round. -/
def earlyOrchestrator : FinalLog where
  events := [activated "0xa" 1, roundStarted 1 2, bonded "0xa" 3]
  final := by decide
  ofBondingManager := by decide

/-- The first of two runs. -/
def earlyRun : Polled :=
  let seen := fresh 1 [activated "0xa" 1]
  let run := runProfileBackfill zeroReads false orchProfileBatchLimit seen.db
  ⟨run.1, 1, run.2.caughtUp⟩

theorem knowsInOrder_atOnce : KnowsInOrder zeroReads orchProfileBatchLimit
    (fresh 3 earlyOrchestrator.events).db := by
  have batch : profileBatch false orchProfileBatchLimit (fresh 3 earlyOrchestrator.events).db =
      [activated "0xa" 1] ++ roundStarted 1 2 :: [bonded "0xa" 3] := by decide +kernel
  have rounds : RoundsGiven ([activated "0xa" 1] ++ roundStarted 1 2 :: [bonded "0xa" 3]) := by
    unfold RoundsGiven
    decide
  refine ⟨batch ▸ rounds, ?_, ?_, ?_⟩
  · exact atRounds_single batch (by decide) (by decide +kernel)
  · exact atRounds_single batch (by decide) (by decide +kernel)
  · exact atRounds_single batch (by decide) (by decide +kernel)

theorem knowsInOrder_first : KnowsInOrder zeroReads orchProfileBatchLimit
    (fresh 1 [activated "0xa" 1]).db := by
  have none : ∀ e ∈ profileBatch false orchProfileBatchLimit (fresh 1 [activated "0xa" 1]).db,
      e.eventName ≠ .NewRound := by decide +kernel
  exact ⟨fun e member newRound => absurd newRound (none e member), atRounds_none none,
    atRounds_none none, atRounds_none none⟩

theorem knowsInOrder_second : KnowsInOrder zeroReads orchProfileBatchLimit
    { earlyRun.db with rawProtocolEvents := earlyOrchestrator.events } := by
  have batch : profileBatch false orchProfileBatchLimit
      { earlyRun.db with rawProtocolEvents := earlyOrchestrator.events } =
        [activated "0xa" 1] ++ roundStarted 1 2 :: [bonded "0xa" 3] := by decide +kernel
  have rounds : RoundsGiven ([activated "0xa" 1] ++ roundStarted 1 2 :: [bonded "0xa" 3]) := by
    unfold RoundsGiven
    decide
  refine ⟨batch ▸ rounds, ?_, ?_, ?_⟩
  · exact atRounds_single batch (by decide) (by decide +kernel)
  · exact atRounds_single batch (by decide) (by decide +kernel)
  · exact atRounds_single batch (by decide) (by decide +kernel)

theorem profileRuns_agree_earlyOrchestrator :
    (atOnce earlyOrchestrator 3).db.orchStakeByRound =
      (inTwo earlyOrchestrator 1 3).db.orchStakeByRound :=
  profileRuns_agree zeroReads earlyOrchestrator
    (fresh_of_shows ⟨rfl, by decide⟩)
    (@fresh_of_shows earlyOrchestrator 1 [activated "0xa" 1] ⟨by decide +kernel, by decide⟩)
    (Relation.ReflTransGen.single
      ⟨.profile orchProfileBatchLimit, knowsInOrder_atOnce, rfl⟩)
    (Relation.ReflTransGen.head ⟨.profile orchProfileBatchLimit, knowsInOrder_first, rfl⟩
      (Relation.ReflTransGen.head
        ⟨.finalize 3 earlyOrchestrator.events, ⟨by decide, rfl, by decide⟩, rfl⟩
        (Relation.ReflTransGen.single
          ⟨.profile orchProfileBatchLimit, knowsInOrder_second, rfl⟩)))
    ⟨by decide, by decide +kernel⟩ ⟨by decide, by decide +kernel⟩

end Polling

end ProtocolExplorer.Staker
