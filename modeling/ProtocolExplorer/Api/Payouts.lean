import ProtocolExplorer.Rollups.Reclassification

/-!
# Payouts by job type

`/payouts/summary` and `/payouts/leaderboard` add up `orch_payouts_daily`, whose rows carry the
classification a gateway had when its tickets were folded.  The number of distinct gateways is
counted over the event log, under the present classifications.

* `redemptions_of_tickets` — the tickets of a request are among the redemptions it looks at;
* `describes_iff` — where the counts are up to date, figures describe their tickets exactly if no
  gateway has redemptions only that are not valued;
* `jobTypes_coherent` — **so do all figures of both routes, in every run that changes no ticket
  behind the checkpoint**;
* `reclassified_splits` — a gateway that is classified after its ticket has been folded.
-/

set_option autoImplicit false

namespace ProtocolExplorer.Api

open ProtocolExplorer.Lib
open ProtocolExplorer.Store
open ProtocolExplorer.Rollups

/-! ## The routes -/

inductive JobType where
  | ai
  | transcoding
  | both
  deriving DecidableEq

/-- `JobType::sql_filter`. -/
def JobType.sqlFilter : JobType → Option BroadcasterKind
  | ai => some .ai
  | transcoding => some .transcoding
  | both => none

/-- `$5 IS NULL OR kind = $5`. -/
def JobType.admits (jobType : JobType) (kind : BroadcasterKind) : Bool :=
  jobType.sqlFilter.all fun wanted => decide (kind = wanted)

/-- The dates and the version of a request. -/
structure PayoutRequest where
  startDay : ℤ
  endDay : ℤ
  valuationVersion : Version

/-- Midnight of a day. -/
def startOfDay (day : ℤ) : Timestamp := day * (86400 * 1000000)

namespace PayoutRequest

variable (request : PayoutRequest)

/-- The rollup rows of a figure; the leaderboard groups them by orchestrator. -/
def reads (orchestrator : Option Address) (jobType : JobType) (key : PayoutKey) : Bool :=
  decide (request.startDay ≤ key.dayUtc) && decide (key.dayUtc ≤ request.endDay) &&
    decide (key.valuationVersion = request.valuationVersion) &&
      jobType.admits key.broadcasterKind &&
        orchestrator.all fun address => decide (key.orchestratorAddress = address)

/-- The `WHERE` clause of the sub-query for `distinct_gateways`. -/
def counts (orchestrator : Option Address) (jobType : JobType) (tables : SourceTables)
    (e : RawEvent) : Bool :=
  decide (e.eventName = .WinningTicketRedeemed) && e.isCanonical &&
    decide (e.finality = .finalized) &&
      decide (startOfDay request.startDay ≤ e.blockTimestamp) &&
        decide (e.blockTimestamp < startOfDay (request.endDay + 1)) &&
          jobType.admits (tables.broadcasterKind e.fromAddress) &&
            orchestrator.all fun address => decide (e.toAddress = some address)

/-- The senders of the redemptions that the sub-query looks at. -/
def countedGateways (orchestrator : Option Address) (jobType : JobType) (tables : SourceTables) :
    Finset Address :=
  ((tables.rawProtocolEvents.filter (request.counts orchestrator jobType tables)).filterMap
    fun e => e.fromAddress).toFinset

/-- The sums of a figure, with its `COUNT(DISTINCT r.from_address)`. -/
def figures (orchestrator : Option Address) (jobType : JobType) (db : Db) : PayoutSums Numeric :=
  { orchPayouts.servedColumn id (request.reads orchestrator jobType) db with
    distinctGateways := (request.countedGateways orchestrator jobType db.sourceTables).card }

/-- `summary_for_range`. -/
def summaryForRange (jobType : JobType) (db : Db) : PayoutSums Numeric :=
  request.figures none jobType db

/-- The group of an orchestrator in `leaderboard`, if it has one. -/
def leaderboardRow (jobType : JobType) (orchestrator : Address) (db : Db) :
    Option (PayoutSums Numeric) :=
  if ∃ key ∈ db.orchPayoutsDaily.keys, request.reads (some orchestrator) jobType key = true then
    some (request.figures (some orchestrator) jobType db)
  else none

/-! ## The tickets they should describe -/

/-- The valued redemptions of a figure, under the present classifications. -/
def tickets (orchestrator : Option Address) (jobType : JobType) (tables : SourceTables) :
    List TicketEventRow :=
  orchPayouts.servedRows false (request.reads orchestrator jobType) tables

/-- The gateways of these tickets. -/
def ticketGateways (orchestrator : Option Address) (jobType : JobType) (tables : SourceTables) :
    Finset Address :=
  ((request.tickets orchestrator jobType tables).map TicketEventRow.gatewayAddress).toFinset

end PayoutRequest

/-- Figures of exactly these tickets. -/
structure Describes (figures : PayoutSums Numeric) (tickets : List TicketEventRow) : Prop where
  ticketCount : figures.ticketCount = tickets.length
  distinctGateways : figures.distinctGateways =
    (tickets.map TicketEventRow.gatewayAddress).toFinset.card

/-- The ticket count of a row that may be missing. -/
def countedTickets (row : Option (PayoutSums Numeric)) : ℤ :=
  (row.map PayoutSums.ticketCount).getD 0

/-- The figures of either route describe one set of tickets, and the job types add up. -/
structure JobTypesCoherent (request : PayoutRequest) (db : Db) : Prop where
  summary : ∀ jobType, Describes (request.summaryForRange jobType db)
    (request.tickets none jobType db.sourceTables)
  leaderboard : ∀ jobType orchestrator, ∀ row ∈ request.leaderboardRow jobType orchestrator db,
    Describes row (request.tickets (some orchestrator) jobType db.sourceTables)
  listed : ∀ jobType orchestrator, (request.leaderboardRow jobType orchestrator db).isSome = true ↔
    request.tickets (some orchestrator) jobType db.sourceTables ≠ []
  summarySplit : (request.summaryForRange .ai db).ticketCount +
    (request.summaryForRange .transcoding db).ticketCount =
      (request.summaryForRange .both db).ticketCount
  leaderboardSplit : ∀ orchestrator,
    countedTickets (request.leaderboardRow .ai orchestrator db) +
        countedTickets (request.leaderboardRow .transcoding orchestrator db) =
      countedTickets (request.leaderboardRow .both orchestrator db)

/-- Every gateway with a finalized redemption in the range, and to an orchestrator of the
leaderboard, has one that is valued under the requested version. -/
structure GatewaysValued (request : PayoutRequest) (tables : SourceTables) : Prop where
  summary : request.countedGateways none .both tables ⊆ request.ticketGateways none .both tables
  leaderboard : ∀ orchestrator, request.tickets (some orchestrator) .both tables ≠ [] →
    request.countedGateways (some orchestrator) .both tables ⊆
      request.ticketGateways (some orchestrator) .both tables

/-! ## Days -/

theorem startOfDay_le_iff {day : ℤ} {ts : Timestamp} : startOfDay day ≤ ts ↔ day ≤ dayUtc ts := by
  rw [startOfDay, dayUtc, Int.fdiv_eq_ediv_of_nonneg _ (by norm_num)]
  exact (Int.le_ediv_iff_mul_le (by norm_num)).symm

theorem lt_startOfDay_iff {day : ℤ} {ts : Timestamp} :
    ts < startOfDay (day + 1) ↔ dayUtc ts ≤ day := by
  rw [← not_le, startOfDay_le_iff, not_le, Int.lt_add_one_iff]

/-! ## Tickets and redemptions -/

section Tickets

variable {request : PayoutRequest} {orchestrator : Option Address} {jobType : JobType}
  {tables : SourceTables} {db : Db}

theorem JobType.admits_both (kind : BroadcasterKind) : JobType.both.admits kind = true := rfl

/-- A ticket is selected as its redemption is. -/
theorem reads_key_iff {row : TicketEventRow} :
    request.reads orchestrator jobType row.key = true ↔
      request.startDay ≤ dayUtc row.blockTimestamp ∧
        dayUtc row.blockTimestamp ≤ request.endDay ∧
          row.valuationVersion = request.valuationVersion ∧
            jobType.admits row.broadcasterKind = true ∧
              ∀ address ∈ orchestrator, row.orchestratorAddress = address := by
  simp only [PayoutRequest.reads, Bool.and_eq_true, decide_eq_true_eq, Option.all_eq_true,
    and_assoc]
  rfl

theorem mem_tickets {row : TicketEventRow} :
    row ∈ request.tickets orchestrator jobType tables ↔
      (∃ e ∈ tables.rawProtocolEvents, row ∈ ticketEventRows false tables e) ∧
        request.reads orchestrator jobType row.key = true := by
  rw [PayoutRequest.tickets, DailyRollup.servedRows, List.mem_filter, orchPayouts.mem_sourceRows]
  rfl

/-- A ticket is filed under the present kind of its gateway. -/
theorem broadcasterKind_of_ticket {e : RawEvent} {row : TicketEventRow}
    (joined : row ∈ ticketEventRows false tables e) :
    row.broadcasterKind = tables.broadcasterKind (some row.gatewayAddress) := by
  unfold ticketEventRows at joined
  split at joined
  · split at joined
    · obtain ⟨_, _, rfl⟩ := List.mem_map.mp joined
      rfl
    · cases joined
  · cases joined

theorem mem_countedGateways {gateway : Address} :
    gateway ∈ request.countedGateways orchestrator jobType tables ↔
      ∃ e ∈ tables.rawProtocolEvents, request.counts orchestrator jobType tables e = true ∧
        e.fromAddress = some gateway := by
  simp only [PayoutRequest.countedGateways, List.mem_toFinset, List.mem_filterMap, List.mem_filter,
    and_assoc]

theorem mem_ticketGateways {gateway : Address} :
    gateway ∈ request.ticketGateways orchestrator jobType tables ↔
      ∃ row ∈ request.tickets orchestrator jobType tables, row.gatewayAddress = gateway := by
  simp only [PayoutRequest.ticketGateways, List.mem_toFinset, List.mem_map]

/-- **The gateways of the tickets are among those counted.** -/
theorem ticketGateways_subset : request.ticketGateways orchestrator jobType tables ⊆
    request.countedGateways orchestrator jobType tables := by
  intro gateway member
  obtain ⟨row, ticket, rfl⟩ := mem_ticketGateways.mp member
  obtain ⟨⟨e, stored, joined⟩, selected⟩ := mem_tickets.mp ticket
  obtain ⟨sender, receiver, redeemed, eligible, _, timestamp, _⟩ := mem_ticketEventRows joined
  obtain ⟨after, before, _, admitted, ofOrchestrator⟩ := reads_key_iff.mp selected
  obtain ⟨canonical, finalized⟩ := Bool.and_eq_true _ _ ▸ eligible
  refine mem_countedGateways.mpr ⟨e, stored, ?_, sender⟩
  rw [timestamp] at after before
  rw [broadcasterKind_of_ticket joined, ← sender] at admitted
  have toOrchestrator : ∀ address ∈ orchestrator, e.toAddress = some address := by
    intro address wanted
    rw [receiver, ofOrchestrator address wanted]
  simp only [PayoutRequest.counts, Bool.and_eq_true, decide_eq_true_eq, Option.all_eq_true,
    startOfDay_le_iff, lt_startOfDay_iff]
  exact ⟨⟨⟨⟨⟨⟨redeemed, canonical⟩, by simpa using finalized⟩, after⟩, before⟩, admitted⟩,
    toOrchestrator⟩

/-- Counting one job type is counting both and dropping the other. -/
theorem subset_of_both (both : request.countedGateways orchestrator .both tables ⊆
      request.ticketGateways orchestrator .both tables) :
    request.countedGateways orchestrator jobType tables ⊆
      request.ticketGateways orchestrator jobType tables := by
  intro gateway member
  obtain ⟨e, stored, counted, sender⟩ := mem_countedGateways.mp member
  simp only [PayoutRequest.counts, Bool.and_eq_true] at counted
  obtain ⟨⟨rest, admitted⟩, toOrchestrator⟩ := counted
  have counted' : request.counts orchestrator .both tables e = true := by
    simp only [PayoutRequest.counts, Bool.and_eq_true]
    exact ⟨⟨rest, rfl⟩, toOrchestrator⟩
  obtain ⟨row, ticket, rfl⟩ :=
    mem_ticketGateways.mp (both (mem_countedGateways.mpr ⟨e, stored, counted', sender⟩))
  obtain ⟨joined, selected⟩ := mem_tickets.mp ticket
  obtain ⟨after, before, version, _, ofOrchestrator⟩ := reads_key_iff.mp selected
  refine mem_ticketGateways.mpr ⟨row, mem_tickets.mpr ⟨joined, reads_key_iff.mpr
    ⟨after, before, version, ?_, ofOrchestrator⟩⟩, rfl⟩
  obtain ⟨_, _, joined⟩ := joined
  rwa [broadcasterKind_of_ticket joined, ← sender]

/-- The tickets of a job type are those of both that it admits. -/
theorem tickets_eq_filter (jobType : JobType) : request.tickets orchestrator jobType tables =
    (request.tickets orchestrator .both tables).filter
      fun row => jobType.admits row.broadcasterKind := by
  unfold PayoutRequest.tickets DailyRollup.servedRows
  rw [List.filter_filter]
  refine List.filter_congr fun row _ => ?_
  rw [Bool.eq_iff_iff, Bool.and_eq_true]
  change request.reads orchestrator jobType row.key = true ↔
    _ ∧ request.reads orchestrator .both row.key = true
  rw [reads_key_iff, reads_key_iff]
  constructor
  · rintro ⟨after, before, version, admitted, toOrchestrator⟩
    exact ⟨admitted, after, before, version, rfl, toOrchestrator⟩
  · rintro ⟨admitted, after, before, version, _, toOrchestrator⟩
    exact ⟨after, before, version, admitted, toOrchestrator⟩

/-- **The tickets of both job types are those of the one and those of the other.** -/
theorem length_tickets_split (orchestrator : Option Address) (tables : SourceTables) :
    (request.tickets orchestrator .ai tables).length +
        (request.tickets orchestrator .transcoding tables).length =
      (request.tickets orchestrator .both tables).length := by
  rw [tickets_eq_filter .ai, tickets_eq_filter .transcoding, ← List.countP_eq_length_filter,
    ← List.countP_eq_length_filter,
    List.length_eq_countP_add_countP fun row => JobType.ai.admits row.broadcasterKind]
  refine congrArg _ (List.countP_congr fun row _ => ?_)
  unfold JobType.admits JobType.sqlFilter
  cases row.broadcasterKind <;> decide

/-! ## Figures -/

/-- The ticket count of a figure, in a caught-up state. -/
theorem ticketCount_figures (counts : orchPayouts.CountsFolded false db)
    (caughtUp : orchPayouts.CaughtUp false db) (orchestrator : Option Address)
    (jobType : JobType) : (request.figures orchestrator jobType db).ticketCount =
      (request.tickets orchestrator jobType db.sourceTables).length := by
  have summed := orchPayouts.map_servedColumn orchPayouts.storedCount id
    (request.reads orchestrator jobType) db
  exact summed.trans (DailyRollup.servedColumn_of_countsFolded counts caughtUp _)

/-- **Figures describe their tickets exactly if they count no other gateways.** -/
theorem describes_iff (counts : orchPayouts.CountsFolded false db)
    (caughtUp : orchPayouts.CaughtUp false db) : Describes (request.figures orchestrator jobType db)
        (request.tickets orchestrator jobType db.sourceTables) ↔
      request.countedGateways orchestrator jobType db.sourceTables ⊆
        request.ticketGateways orchestrator jobType db.sourceTables := by
  constructor
  · rintro ⟨_, distinct⟩
    have same : (request.countedGateways orchestrator jobType db.sourceTables).card =
        (request.ticketGateways orchestrator jobType db.sourceTables).card :=
      Int.ofNat_inj.mp distinct
    exact (Finset.eq_of_subset_of_card_le ticketGateways_subset same.le).ge
  · intro subset
    refine ⟨ticketCount_figures counts caughtUp orchestrator jobType, ?_⟩
    exact congrArg (fun gateways : Finset Address => (gateways.card : ℤ))
      (subset.antisymm ticketGateways_subset)

/-- The leaderboard lists the orchestrators with tickets. -/
theorem isSome_leaderboardRow (counts : orchPayouts.CountsFolded false db)
    (caughtUp : orchPayouts.CaughtUp false db) {orchestrator : Address} :
    (request.leaderboardRow jobType orchestrator db).isSome = true ↔
      request.tickets (some orchestrator) jobType db.sourceTables ≠ [] := by
  unfold PayoutRequest.leaderboardRow PayoutRequest.tickets DailyRollup.servedRows
  rw [Option.isSome_ite, ne_eq, List.filter_eq_nil_iff, not_forall]
  constructor
  · rintro ⟨key, stored, selected⟩
    obtain ⟨row, source, rfl⟩ :=
      (DailyRollup.mem_table_of_countsFolded counts caughtUp).mp (Finmap.mem_keys.mp stored)
    exact ⟨row, fun nothing => nothing source selected⟩
  · rintro ⟨row, selected⟩
    rw [Classical.not_imp, not_not] at selected
    refine ⟨_, Finmap.mem_keys.mpr ?_, selected.2⟩
    exact (DailyRollup.mem_table_of_countsFolded counts caughtUp).mpr ⟨row, selected.1, rfl⟩

/-- A row that may be missing counts the tickets of its orchestrator. -/
theorem countedTickets_leaderboardRow (counts : orchPayouts.CountsFolded false db)
    (caughtUp : orchPayouts.CaughtUp false db) (jobType : JobType) (orchestrator : Address) :
    countedTickets (request.leaderboardRow jobType orchestrator db) =
      (request.tickets (some orchestrator) jobType db.sourceTables).length := by
  have listed : (request.leaderboardRow jobType orchestrator db).isSome = true ↔ _ :=
    isSome_leaderboardRow counts caughtUp
  unfold PayoutRequest.leaderboardRow at listed ⊢
  split
  · exact ticketCount_figures counts caughtUp (some orchestrator) jobType
  · next missing =>
      rw [if_neg missing, Option.isSome_none] at listed
      have nothing := not_not.mp (mt listed.mpr Bool.false_ne_true)
      rw [nothing]
      rfl

/-- **In a caught-up state whose counts are up to date, the job types are coherent exactly if every
gateway is valued.** -/
theorem jobTypesCoherent_iff (counts : orchPayouts.CountsFolded false db)
    (caughtUp : orchPayouts.CaughtUp false db) :
    JobTypesCoherent request db ↔ GatewaysValued request db.sourceTables := by
  constructor
  · intro coherent
    refine ⟨(describes_iff counts caughtUp).mp (coherent.summary .both), ?_⟩
    intro orchestrator some_ticket
    obtain ⟨row, found⟩ := Option.isSome_iff_exists.mp
      ((isSome_leaderboardRow counts caughtUp).mpr some_ticket)
    have described := coherent.leaderboard .both orchestrator row found
    unfold PayoutRequest.leaderboardRow at found
    split at found
    · cases found
      exact (describes_iff counts caughtUp).mp described
    · cases found
  · intro valued
    refine ⟨?_, ?_, ?_, ?_, ?_⟩
    · exact fun jobType => (describes_iff counts caughtUp).mpr (subset_of_both valued.summary)
    · intro jobType orchestrator row found
      have listed := (isSome_leaderboardRow counts caughtUp).mp (Option.isSome_of_mem found)
      unfold PayoutRequest.leaderboardRow at found
      split at found
      · cases found
        refine (describes_iff counts caughtUp).mpr (subset_of_both (valued.leaderboard _ ?_))
        intro nothing
        rw [tickets_eq_filter, nothing] at listed
        exact listed rfl
      · cases found
    · exact fun jobType orchestrator => isSome_leaderboardRow counts caughtUp
    · simp only [PayoutRequest.summaryForRange, ticketCount_figures counts caughtUp]
      exact_mod_cast length_tickets_split none db.sourceTables
    · intro orchestrator
      simp only [countedTickets_leaderboardRow counts caughtUp]
      exact_mod_cast length_tickets_split (some orchestrator) db.sourceTables

end Tickets

/-! ## Every run -/

open Reclassification in
/-- **In every run that changes no ticket behind the checkpoint, the figures of a caught-up state
describe one set of tickets for every job type, exactly if every gateway is valued.** -/
theorem jobTypes_coherent {classifications : Table Address BroadcasterKind} {db : Db}
    (run : GuardedRun step keepsOrder (Pipeline.start classifications) db)
    (caughtUp : orchPayouts.CaughtUp false db) (request : PayoutRequest) :
    JobTypesCoherent request db ↔ GatewaysValued request db.sourceTables :=
  jobTypesCoherent_iff (countsFolded_of_run run) caughtUp

/-! ## Reclassifying before and after -/

/-- A ticket of each of two gateways, finalized, valued and rolled up. -/
def twoGateways : List ClassifiedAction :=
  [.pipeline (.index [(1, Pipeline.ticketRow 1 "0xg"), (2, Pipeline.ticketRow 2 "0xh")]),
    .pipeline (.finalize 0 1000 1000),
    .pipeline (.value [Pipeline.ticketValuation 1 "v1", Pipeline.ticketValuation 2 "v1"]),
    .pipeline (.rollOrchPayouts 10)]

def dayZero : PayoutRequest := ⟨0, 0, "v1"⟩

/-- A gateway that is classified first is counted as such. -/
theorem classifiedFirst_coherent : ∃ db,
    execute Reclassification.step (Pipeline.start ∅) (.classify "0xg" (some .ai) :: twoGateways) =
        some db ∧ JobTypesCoherent dayZero db := by
  refine ⟨(execute Reclassification.step (Pipeline.start ∅)
    (.classify "0xg" (some .ai) :: twoGateways)).get (by decide +kernel),
    (Option.some_get _).symm, ?_⟩
  refine (jobTypes_coherent (execute_guardedRun (Option.some_get _).symm (by decide +kernel))
    (by unfold DailyRollup.CaughtUp; decide +kernel) dayZero).mpr ⟨by decide +kernel, ?_⟩
  -- both tickets went to one orchestrator
  intro orchestrator some_ticket
  obtain ⟨row, ticket⟩ := List.exists_mem_of_ne_nil _ some_ticket
  obtain ⟨joined, selected⟩ := mem_tickets.mp ticket
  have toOrchestrator := (reads_key_iff.mp selected).2.2.2.2 orchestrator rfl
  have known : ∀ row ∈ orchPayouts.sourceRows false ((execute Reclassification.step
      (Pipeline.start ∅) (.classify "0xg" (some .ai) :: twoGateways)).get
        (by decide +kernel)).sourceTables, row.orchestratorAddress = "0xo" := by
    decide +kernel
  obtain rfl := toOrchestrator.symm.trans
    (known row ((orchPayouts.mem_sourceRows false).mpr joined))
  decide +kernel

/-- **A gateway that is classified after its ticket has been folded splits the figures**: no ticket
and one gateway. -/
theorem reclassified_splits : ¬ ∀ db, Run Reclassification.step (Pipeline.start ∅) db →
    orchPayouts.CaughtUp false db → ∀ request, JobTypesCoherent request db := by
  intro law
  have executed : execute Reclassification.step (Pipeline.start ∅)
      (twoGateways ++ [.classify "0xg" (some .ai)]) = some ((execute Reclassification.step
        (Pipeline.start ∅) (twoGateways ++ [.classify "0xg" (some .ai)])).get
          (by decide +kernel)) := (Option.some_get _).symm
  have described := (law _ (execute_run executed)
    (by unfold DailyRollup.CaughtUp; decide +kernel) dayZero).summary .ai
  exact absurd described.ticketCount (by decide +kernel)

end ProtocolExplorer.Api
