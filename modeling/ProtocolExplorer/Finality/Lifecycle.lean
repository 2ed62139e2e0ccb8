import ProtocolExplorer.Finality.Watcher
import ProtocolExplorer.Indexer.InsertEvents
import ProtocolExplorer.Lib.Transition
import ProtocolExplorer.Reorg.Watcher

/-!
# The life of a raw event

Three writers share `raw_protocol_events`: the indexer inserts rows, the finality watcher
moves `finality` and stamps `finalized_at`, the reorg watcher clears `is_canonical`.  Each
of their statements is an action here, so statements of concurrent iterations interleave
freely; `run_runWithTimestamps` and `run_watch` place the whole iterations among the runs.

* `evolves_step` — the step lemma, from one lemma for each update of a row;
* `lifecycle_run` — **along every run, a row only moves forward in `finality`, carries
  `finalized_at` exactly when finalized and keeps it, never becomes canonical again and
  changes in no other column; and a finality iteration leaves no canonical row at or before
  its cutoff unfinalized**.
-/

set_option autoImplicit false

namespace ProtocolExplorer.Finality

open ProtocolExplorer.Lib
open ProtocolExplorer.Store
open ProtocolExplorer.Indexer
open ProtocolExplorer.Reorg (unmark)

/-! ## Statements -/

inductive LifecycleAction where
  /-- `insert_events`, also of rows that are stored already. -/
  | insert (rows : NumberedRows)
  /-- The first update of `run_with_timestamps`. -/
  | postL1 (latestTs : ℤ)
  /-- The second update of `run_with_timestamps`, at clock `now`. -/
  | finalize (now : Timestamp) (finalizedTs : ℤ)
  /-- The update of `handle_divergence`. -/
  | diverge (blockNumber : ℤ)

namespace Lifecycle

def step (events : List RawEvent) : LifecycleAction → Option (List RawEvent)
  | .insert rows => if freshIds rows events then some (insertEvents rows events) else none
  | .postL1 latestTs => some (events.map (markL1Posted (latestTs - postingLagSecs)))
  | .finalize now finalizedTs =>
      some (events.map (markFinalized now (finalizedTs - finalitySafetyMarginSecs)))
  | .diverge blockNumber => some (events.map (unmark blockNumber))

/-- A finality iteration is its two updates. -/
theorem run_runWithTimestamps (now : Timestamp) (latestTs finalizedTs : ℤ) (db : Db) :
    Run step db.rawProtocolEvents (runWithTimestamps now latestTs finalizedTs db).rawProtocolEvents := by
  have executed : execute step db.rawProtocolEvents
      [.postL1 latestTs, .finalize now finalizedTs] =
      some (runWithTimestamps now latestTs finalizedTs db).rawProtocolEvents := rfl
  exact execute_run executed

/-- An iteration of the reorg watcher is the update of each divergence. -/
theorem run_watch (chain : Reorg.ChainView) (db : Db) :
    Run step db.rawProtocolEvents (Reorg.runOnce chain db).1.rawProtocolEvents := by
  have walk : ∀ (blocks : List (ℤ × BlockHash)) (db : Db) (divergences : ℕ),
      Run step db.rawProtocolEvents
        (Reorg.checkBlocks chain blocks db divergences).1.rawProtocolEvents := by
    intro blocks
    induction blocks with
    | nil =>
        intro db divergences
        exact Relation.ReflTransGen.refl
    | cons block rest inductionHypothesis =>
        intro db divergences
        unfold Reorg.checkBlocks
        split
        · exact Relation.ReflTransGen.refl
        · dsimp only
          split
          · refine Relation.ReflTransGen.head ⟨.diverge block.1, trivial, rfl⟩ ?_
            exact inductionHypothesis (Reorg.handleDivergence block.1 _ _ db) _
          · exact inductionHypothesis db divergences
  unfold Reorg.runOnce
  split
  · exact Relation.ReflTransGen.refl
  · exact walk _ db 0

/-! ## What may happen to a row -/

/-- The stages of `finality`. -/
def stage : Finality → ℕ
  | .tentative => 0
  | .l1Posted => 1
  | .finalized => 2

/-- A later state of a row. -/
structure Evolves (before after : RawEvent) : Prop where
  row : after.toPreparedRow = before.toPreparedRow
  id : after.id = before.id
  forward : stage before.finality ≤ stage after.finality
  stamp : ∀ at_ ∈ before.finalizedAt, at_ ∈ after.finalizedAt
  canonical : after.isCanonical = true → before.isCanonical = true

/-- `finalized_at` is set exactly on finalized rows. -/
def Stamped (e : RawEvent) : Prop := e.finalizedAt.isSome ↔ e.finality = .finalized

theorem Evolves.refl (e : RawEvent) : Evolves e e :=
  ⟨rfl, rfl, le_refl _, fun _ stamped => stamped, fun canonical => canonical⟩

theorem Evolves.trans {first second third : RawEvent} (one : Evolves first second)
    (two : Evolves second third) : Evolves first third where
  row := two.row.trans one.row
  id := two.id.trans one.id
  forward := le_trans one.forward two.forward
  stamp at_ stamped := two.stamp at_ (one.stamp at_ stamped)
  canonical still := one.canonical (two.canonical still)

variable {e : RawEvent} {events events' : List RawEvent}

theorem evolves_markL1Posted (cutoff : ℤ) (stamped : Stamped e) :
    Evolves e (markL1Posted cutoff e) ∧ Stamped (markL1Posted cutoff e) := by
  unfold markL1Posted
  split
  · next posts =>
      obtain ⟨tentative, canonical, _⟩ := posts
      refine ⟨⟨rfl, rfl, ?_, fun _ kept => kept, fun still => still⟩, ?_⟩
      · rw [tentative]
        exact Nat.zero_le _
      · rw [Stamped, tentative] at stamped
        simpa [Stamped] using stamped
  · exact ⟨Evolves.refl e, stamped⟩

theorem evolves_markFinalized (now : Timestamp) (cutoff : ℤ) (stamped : Stamped e) :
    Evolves e (markFinalized now cutoff e) ∧ Stamped (markFinalized now cutoff e) := by
  unfold markFinalized
  split
  · next finalizes =>
      obtain ⟨pending, canonical, _⟩ := finalizes
      have unstamped : e.finalizedAt = none := by
        refine Option.not_isSome_iff_eq_none.mp fun isSome => ?_
        have final := stamped.mp isSome
        rcases pending with tentative | posted
        · rw [final] at tentative
          cases tentative
        · rw [final] at posted
          cases posted
      refine ⟨⟨rfl, rfl, ?_, fun at_ earlier => ?_, fun still => still⟩, iff_of_true rfl rfl⟩
      · rcases pending with tentative | posted
        · rw [tentative]
          exact Nat.zero_le _
        · rw [posted]
          exact Nat.le_succ 1
      · rw [unstamped] at earlier
        cases earlier
  · exact ⟨Evolves.refl e, stamped⟩

theorem evolves_unmark (blockNumber : ℤ) (stamped : Stamped e) :
    Evolves e (unmark blockNumber e) ∧ Stamped (unmark blockNumber e) := by
  unfold unmark
  split
  · exact ⟨⟨rfl, rfl, le_refl _, fun _ kept => kept, fun still => nomatch still⟩, stamped⟩
  · exact ⟨Evolves.refl e, stamped⟩

/-! ## Steps and runs -/

/-- The row at every place is an earlier state of the row at that place later. -/
def Extends (events events' : List RawEvent) : Prop :=
  ∀ (i : ℕ) (e : RawEvent), events[i]? = some e → ∃ e', events'[i]? = some e' ∧ Evolves e e'

theorem Extends.refl (events : List RawEvent) : Extends events events :=
  fun _ e placed => ⟨e, placed, Evolves.refl e⟩

theorem Extends.trans {events'' : List RawEvent} (one : Extends events events')
    (two : Extends events' events'') : Extends events events'' := by
  intro i e placed
  obtain ⟨e', placed', first⟩ := one i e placed
  obtain ⟨e'', placed'', second⟩ := two i e' placed'
  exact ⟨e'', placed'', first.trans second⟩

theorem extends_map {update : RawEvent → RawEvent}
    (evolves : ∀ e ∈ events, Evolves e (update e)) : Extends events (events.map update) := by
  intro i e placed
  refine ⟨update e, ?_, evolves e (List.mem_of_getElem? placed)⟩
  rw [List.getElem?_map, placed]
  rfl

theorem extends_append (events new : List RawEvent) : Extends events (events ++ new) := by
  intro i e placed
  refine ⟨e, ?_, Evolves.refl e⟩
  obtain ⟨inside, _⟩ := List.getElem?_eq_some_iff.mp placed
  rw [List.getElem?_append_left inside]
  exact placed

/-- **One statement moves every row forward and stamps the ones it finalizes.** -/
theorem evolves_step (a : LifecycleAction) (stamped : ∀ e ∈ events, Stamped e)
    (stepped : step events a = some events') :
    Extends events events' ∧ ∀ e ∈ events', Stamped e := by
  have ofMap : ∀ update : RawEvent → RawEvent,
      (∀ e, Stamped e → Evolves e (update e) ∧ Stamped (update e)) →
      Extends events (events.map update) ∧ ∀ e ∈ events.map update, Stamped e := by
    intro update evolves
    refine ⟨extends_map fun e member => (evolves e (stamped e member)).1, fun e member => ?_⟩
    obtain ⟨before, stored, rfl⟩ := List.mem_map.mp member
    exact (evolves before (stamped before stored)).2
  cases a with
  | insert rows =>
      simp only [step, Option.ite_none_right_eq_some, Option.some.injEq] at stepped
      obtain ⟨_, rfl⟩ := stepped
      obtain ⟨new, appended, _⟩ := exists_insertEvents_eq_append rows events
      refine ⟨?_, fun e member => ?_⟩
      · rw [appended]
        exact extends_append events new
      · rcases mem_insertEvents member with stored | ⟨row, _, rfl⟩
        · exact stamped e stored
        · exact iff_of_false (by simp [PreparedRow.stored]) (by simp [PreparedRow.stored])
  | postL1 latestTs =>
      cases stepped
      exact ofMap _ fun e => evolves_markL1Posted _
  | finalize now finalizedTs =>
      cases stepped
      exact ofMap _ fun e => evolves_markFinalized now _
  | diverge blockNumber =>
      cases stepped
      exact ofMap _ fun e => evolves_unmark blockNumber

theorem evolves_run (stamped : ∀ e ∈ events, Stamped e) (run : Run step events events') :
    Extends events events' ∧ ∀ e ∈ events', Stamped e := by
  induction run with
  | refl => exact ⟨Extends.refl events, stamped⟩
  | tail _ last inductionHypothesis =>
      obtain ⟨a, _, stepped⟩ := last
      have moved := evolves_step a inductionHypothesis.2 stepped
      exact ⟨inductionHypothesis.1.trans moved.1, moved.2⟩

/-- A finality iteration leaves no canonical row at or before its cutoff unfinalized. -/
theorem finalized_of_runWithTimestamps {now : Timestamp} {latestTs finalizedTs : ℤ} {db : Db}
    (member : e ∈ (runWithTimestamps now latestTs finalizedTs db).rawProtocolEvents)
    (canonical : e.isCanonical = true)
    (old : e.blockTimestamp ≤ toTimestamp (finalizedTs - finalitySafetyMarginSecs)) :
    e.finality = .finalized := by
  rw [runWithTimestamps_rawProtocolEvents] at member
  obtain ⟨before, _, rfl⟩ := List.mem_map.mp member
  rw [markRow_toPreparedRow] at old
  rw [markRow_isCanonical] at canonical
  rw [markRow]
  generalize kept : markL1Posted (latestTs - postingLagSecs) before = posted
  have own : posted.blockTimestamp = before.blockTimestamp ∧
      posted.isCanonical = before.isCanonical := by
    rw [← kept]
    unfold markL1Posted
    split <;> exact ⟨rfl, rfl⟩
  unfold markFinalized
  split
  · rfl
  · next kept =>
      cases stage : posted.finality with
      | finalized => rfl
      | tentative =>
          exact absurd ⟨Or.inl stage, own.2.trans canonical, own.1.le.trans old⟩ kept
      | l1Posted =>
          exact absurd ⟨Or.inr stage, own.2.trans canonical, own.1.le.trans old⟩ kept

/-- **The life of every row**, in any state of any run and from there to any later state, and
after any finality iteration. -/
theorem lifecycle_run (first : Run step [] events) (later : Run step events events') :
    (∀ e ∈ events, Stamped e) ∧ Extends events events' ∧
      ∀ (now : Timestamp) (latestTs finalizedTs : ℤ) (db : Db), db.rawProtocolEvents = events →
        ∀ e ∈ (runWithTimestamps now latestTs finalizedTs db).rawProtocolEvents,
          e.isCanonical = true →
            e.blockTimestamp ≤ toTimestamp (finalizedTs - finalitySafetyMarginSecs) →
              e.finality = .finalized := by
  have stamped := (evolves_run (fun e member => absurd member List.not_mem_nil) first).2
  exact ⟨stamped, (evolves_run stamped later).1,
    fun _ _ _ _ _ e member => finalized_of_runWithTimestamps member⟩

/-! ## One row -/

/-- A bond of one wei of LPT. -/
def bondRow : PreparedRow where
  txHash := "0xt"
  logIndex := 0
  blockNumber := 1
  blockHash := "0xb"
  blockTimestamp := 0
  contractName := .BondingManager
  eventName := .Bond
  asset := some .LPT
  amountNormalized := some ⟨1⟩
  isValuable := true
  fromAddress := some "0xd"
  toAddress := some "0xo"
  decoded := .none
  amount_of_asset := amount_given

/-- The bond once it is inserted and posted. -/
def postedBond : List RawEvent := [{ bondRow.stored 1 with finality := .l1Posted }]

/-- The bond is offered again, finalized and then found divergent. -/
theorem bondRow_lifecycle :
    execute step [] [.insert [(1, bondRow)], .postL1 1000] = some postedBond ∧
      ∃ events', execute step postedBond [.insert [(2, bondRow)], .finalize 5 1000, .diverge 1] =
        some events' ∧ Extends postedBond events' := by
  have first : execute step [] [.insert [(1, bondRow)], .postL1 1000] = some postedBond := by
    decide +kernel
  have second : (execute step postedBond
      [.insert [(2, bondRow)], .finalize 5 1000, .diverge 1]).isSome := by decide +kernel
  have later := (Option.some_get second).symm
  exact ⟨first, _, later,
    (lifecycle_run (execute_run first) (execute_run later)).2.1⟩

end Lifecycle

end ProtocolExplorer.Finality
