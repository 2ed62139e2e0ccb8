import ProtocolExplorer.Lib.DistinctCounts
import ProtocolExplorer.Rollups.Completeness
import ProtocolExplorer.Rollups.RebuildAgreement

/-!
# Distinct gateways and orchestrators

A batch counts an address under a key when neither the batch nor a query of the event table knows
it.  The query asks for canonical tickets only: they need not be finalized, and they are
classified as they are now.

* `DistinctColumn.cell_rebuild` — a rebuild counts the distinct addresses of its rows;
* `DistinctColumn.countsDistinct_step` — a batch keeps the count, if its queries find the labels
  that have been folded;
* `distinctCounts_exact` — **in a run whose queries find what has been folded, the three counters
  are the numbers of distinct addresses among the folded rows**;
* `tentativeTicket_hides_gateway` — a gateway that is never counted.
-/

set_option autoImplicit false

namespace ProtocolExplorer.Rollups

open ProtocolExplorer.Lib
open ProtocolExplorer.Store

/-! ## What has been folded -/

/-- A database, with the rows that the totals of its table are made of. -/
structure History (Row : Type) where
  db : Db
  folded : List Row

/-- Nothing has been folded. -/
def History.empty {Row : Type} : History Row := ⟨Db.empty, []⟩

namespace DailyRollup

variable {Row Key Label Sums Stored : Type} [AddCommMonoid Sums] [AddCommMonoid Stored]
  [DecidableEq Label] [DecidableEq Key] (r : DailyRollup Row Key Label Sums Stored)
  (includeTentative : Bool)

/-- The rows under a key. -/
def rowsUnder (rows : List Row) (key : Key) : List Row :=
  rows.filter fun row => decide (r.keyOf row = key)

/-- The rows behind the totals after the reorg part: a rebuilt key has the present ones. -/
def rebuiltRows (s : History Row) : List Row :=
  (s.folded.filter fun row => decide (r.keyOf row ∉ r.affectedKeys includeTentative s.db)) ++
    (r.sourceRows includeTentative s.db.sourceTables).filter fun row =>
      decide (r.keyOf row ∈ r.affectedKeys includeTentative s.db)

/-- The batch of a call. -/
def batchRows (limit : ℕ) (s : History Row) : List Row :=
  r.fetchRows includeTentative limit (r.processReorgMutations includeTentative s.db)

def historyStep (s : History Row) : ReorgAction → Option (History Row)
  | .change tables mutations => some ⟨s.db.changed tables mutations, s.folded⟩
  | .runOnce limit =>
      some ⟨r.runOnce includeTentative limit s.db,
        r.rebuiltRows includeTentative s ++ r.batchRows includeTentative limit s⟩

variable {r includeTentative}

omit [DecidableEq Label] in
theorem rowsUnder_append (first second : List Row) (key : Key) :
    r.rowsUnder (first ++ second) key = r.rowsUnder first key ++ r.rowsUnder second key :=
  List.filter_append ..

omit [DecidableEq Label] in
theorem mem_rowsUnder {rows : List Row} {key : Key} {row : Row} :
    row ∈ r.rowsUnder rows key ↔ row ∈ rows ∧ r.keyOf row = key := by
  rw [rowsUnder, List.mem_filter, decide_eq_true_eq]

omit [DecidableEq Label] in
theorem entriesOf_eq_nil_iff (r : DailyRollup Row Key Label Sums Stored) (tables : SourceTables)
    (marked : List (Row × List Label)) (key : Key) :
    entriesOf key (r.entries tables marked) = [] ↔
      r.rowsUnder (marked.map Prod.fst) key = [] := by
  rw [← List.length_eq_zero_iff, length_entriesOf, rowCount, List.countP_eq_length_filter,
    List.length_eq_zero_iff, rowsUnder]

omit [DecidableEq Label] in
/-- A rebuilt key has the present rows, any other key keeps those it had. -/
theorem rowsUnder_rebuiltRows (s : History Row) (key : Key) :
    r.rowsUnder (r.rebuiltRows includeTentative s) key =
      r.rowsUnder (if key ∈ r.affectedKeys includeTentative s.db then
        r.sourceRows includeTentative s.db.sourceTables else s.folded) key := by
  have kept : ∀ (rows : List Row) (q : Key → Bool),
      r.rowsUnder (rows.filter fun row => q (r.keyOf row)) key =
        if q key then r.rowsUnder rows key else [] := by
    intro rows q
    rw [rowsUnder, List.filter_filter]
    split_ifs with own
    · refine List.filter_congr fun row _ => ?_
      by_cases same : r.keyOf row = key <;> simp [same, own]
    · refine List.filter_eq_nil_iff.mpr fun row _ => ?_
      by_cases same : r.keyOf row = key <;> simp [same, own]
  rw [rebuiltRows, rowsUnder_append, kept s.folded fun key =>
    decide (key ∉ r.affectedKeys includeTentative s.db), kept _ fun key =>
    decide (key ∈ r.affectedKeys includeTentative s.db)]
  by_cases reached : key ∈ r.affectedKeys includeTentative s.db <;> simp [reached]

end DailyRollup

/-! ## Columns of distinct addresses -/

/-- A column of a daily table that counts the distinct addresses of its rows. -/
structure DistinctColumn {Row Key Label Sums Stored : Type} [AddCommMonoid Sums]
    [AddCommMonoid Stored] (r : DailyRollup Row Key Label Sums Stored) where
  addressOf : Row → Address
  labelOf : Row → Label
  /-- The labels that the column counts. -/
  counted : Label → Bool
  exact : Sums →+ ℤ
  stored : Stored →+ ℤ
  stored_store : ∀ sums, stored (r.store sums) = exact sums
  exact_sums : ∀ tables row new, exact (r.sums tables row new) = ((new.filter counted).length : ℤ)
  labelsOf_filter : ∀ row, (r.labelsOf row).filter counted = [labelOf row]
  labelOf_eq_iff : ∀ a b, labelOf a = labelOf b ↔ r.keyOf a = r.keyOf b ∧ addressOf a = addressOf b

namespace DistinctColumn

variable {Row Key Label Sums Stored : Type} [AddCommMonoid Sums] [AddCommMonoid Stored]
  [DecidableEq Label] [DecidableEq Key] {r : DailyRollup Row Key Label Sums Stored}
  (column : DistinctColumn r) (includeTentative : Bool)

/-- The column under a key. -/
def cell (table : Table Key (Total Stored)) (key : Key) : Option ℤ :=
  (table.lookup key).map fun stored => column.stored stored.sums

/-- The number of distinct addresses of the rows under a key, absent if there are none. -/
def distinctUnder (rows : List Row) (key : Key) : Option ℤ :=
  if r.rowsUnder rows key = [] then none
  else some (distinctCount column.addressOf (r.rowsUnder rows key))

/-- Every key holds the number of distinct addresses of the rows folded into it, which is what a
rebuild from these rows counts. -/
def CountsDistinct (s : History Row) : Prop :=
  ∀ key, column.cell (r.table s.db) key = column.distinctUnder s.folded key ∧
    column.cell (r.table s.db) key =
      (rebuild key (r.rebuildEntries s.db.sourceTables s.folded)).map fun sum =>
        column.exact sum.sums

/-- The query for a row of the batch finds its address exactly if a row that has been folded, or
an earlier one of the batch, has it under the same key. -/
def AnswersMatch (limit : ℕ) (s : History Row) : Prop :=
  ∀ row ∈ r.batchRows includeTentative limit s,
    (r.prior s.db.sourceTables row (column.labelOf row) = true ↔
      (∃ earlier ∈ r.rebuiltRows includeTentative s, column.labelOf earlier = column.labelOf row) ∨
        ∃ earlier ∈ r.batchRows includeTentative limit s,
          r.eventId earlier < r.eventId row ∧ column.labelOf earlier = column.labelOf row)

instance (limit : ℕ) (s : History Row) :
    Decidable (column.AnswersMatch includeTentative limit s) := by
  unfold AnswersMatch
  infer_instance

/-- Calls are made when the event table answers for what has been folded. -/
def answersMatch (s : History Row) : ReorgAction → Prop
  | .change _ _ => True
  | .runOnce limit => column.AnswersMatch includeTentative limit s

instance (s : History Row) : ∀ a, Decidable (column.answersMatch includeTentative s a)
  | .change _ _ => inferInstanceAs (Decidable True)
  | .runOnce limit => inferInstanceAs (Decidable (column.AnswersMatch includeTentative limit s))

variable {column includeTentative}

/-! ## Totals -/

omit [DecidableEq Key] [DecidableEq Label] in
theorem keyOf_eq_of_labelOf {a b : Row} (same : column.labelOf a = column.labelOf b) :
    r.keyOf a = r.keyOf b := ((column.labelOf_eq_iff a b).mp same).1

/-- Under one key, labels are addresses. -/
theorem distinctCount_labelOf (rows : List Row) (key : Key) :
    distinctCount column.labelOf (r.rowsUnder rows key) =
      distinctCount column.addressOf (r.rowsUnder rows key) := by
  refine distinctCount_congr fun a inA b inB => ?_
  rw [column.labelOf_eq_iff, (DailyRollup.mem_rowsUnder.mp inA).2,
    (DailyRollup.mem_rowsUnder.mp inB).2, and_iff_right rfl]

/-- What the entries of marked rows add to the column. -/
theorem exact_total (tables : SourceTables) (prior : Row → Label → Bool) (rows : List Row)
    (key : Key) :
    column.exact (total (entriesOf key
        (r.entries tables (markFirst r.labelsOf prior [] rows)))).sums =
      ((((markFirst (fun row => [column.labelOf row]) prior [] rows).filter fun marked =>
        decide (r.keyOf marked.1 = key)).map fun marked => marked.2.length).sum : ℕ) := by
  have marks : (markFirst r.labelsOf prior [] rows).map
      (fun marked => (marked.1, marked.2.filter column.counted)) =
        markFirst (fun row => [column.labelOf row]) prior [] rows := by
    rw [map_filter_markFirst, funext column.labelsOf_filter, List.filter_nil]
  rw [map_total_sums, ← marks, entriesOf, DailyRollup.entries, List.filter_map, List.filter_map,
    List.map_map, List.map_map, Nat.cast_list_sum, List.map_map]
  exact congrArg List.sum (List.map_congr_left fun marked _ => column.exact_sums tables ..)

/-- Marks under a key, given the labels of earlier rows. -/
theorem filter_marks (column : DistinctColumn r) (earlier rows : List Row) (key : Key) :
    (((markFirst (fun row => [column.labelOf row]) (fun _ _ => false)
        (seenAfter (fun row => [column.labelOf row]) [] earlier) rows).filter fun marked =>
          decide (r.keyOf marked.1 = key)).map fun marked => marked.2.length).sum =
      firstCount column.labelOf (fun _ _ => false)
        (seenAfter (fun row => [column.labelOf row]) [] (r.rowsUnder earlier key))
        (r.rowsUnder rows key) := by
  have separate : ∀ a b : Row, ∀ label ∈ [column.labelOf a], label ∈ [column.labelOf b] →
      decide (r.keyOf a = key) = decide (r.keyOf b = key) := by
    intro a b label inA inB
    rw [List.mem_singleton] at inA inB
    rw [keyOf_eq_of_labelOf (inA.symm.trans inB)]
  have agree : ∀ row : Row, decide (r.keyOf row = key) = true → ∀ label ∈ [column.labelOf row],
      (label ∈ seenAfter (fun row => [column.labelOf row]) [] earlier ↔
        label ∈ seenAfter (fun row => [column.labelOf row]) [] (r.rowsUnder earlier key)) := by
    intro row own label carried
    obtain rfl := List.mem_singleton.mp carried
    rw [mem_seenAfter_single, mem_seenAfter_single, List.mem_map, List.mem_map]
    refine or_congr Iff.rfl (exists_congr fun other => ?_)
    rw [DailyRollup.mem_rowsUnder]
    constructor
    · rintro ⟨member, same⟩
      exact ⟨⟨member, (keyOf_eq_of_labelOf same).trans (of_decide_eq_true own)⟩, same⟩
    · rintro ⟨⟨member, _⟩, same⟩
      exact ⟨member, same⟩
  rw [filter_markFirst separate agree]
  rfl

/-- **A rebuild counts the distinct addresses of its rows.** -/
theorem cell_rebuild (tables : SourceTables) (rows : List Row) (key : Key) :
    (rebuild key (r.rebuildEntries tables rows)).map (fun sum => column.exact sum.sums) =
      column.distinctUnder rows key := by
  have touched := r.entriesOf_eq_nil_iff tables
    (markFirst r.labelsOf (fun _ _ => false) [] rows) key
  rw [DailyRollup.map_fst_markFirst] at touched
  rw [rebuild, DailyRollup.rebuildEntries, distinctUnder]
  by_cases nothing : r.rowsUnder rows key = []
  · rw [if_pos (touched.mpr nothing), if_pos nothing, Option.map_none]
  · have all := column.filter_marks [] rows key
    rw [seenAfter, List.foldl_nil, DailyRollup.rowsUnder, List.filter_nil, seenAfter,
      List.foldl_nil, firstCount_eq_distinctCount, distinctCount_labelOf] at all
    rw [if_neg (mt touched.mp nothing), if_neg nothing, Option.map_some, exact_total, all]

/-- The marks of a batch whose queries find what has been folded. -/
theorem marks_batch {limit : ℕ} {s : History Row}
    (answers : column.AnswersMatch includeTentative limit s) :
    markFirst (fun row => [column.labelOf row]) (r.prior s.db.sourceTables) []
        (r.batchRows includeTentative limit s) =
      markFirst (fun row => [column.labelOf row]) (fun _ _ => false)
        (seenAfter (fun row => [column.labelOf row]) [] (r.rebuiltRows includeTentative s))
        (r.batchRows includeTentative limit s) := by
  rw [← List.nil_append (seenAfter (fun row => [column.labelOf row]) []
    (r.rebuiltRows includeTentative s))]
  refine markFirst_eq_of_seen fun before row after split label carried _ unseen => ?_
  obtain rfl := List.mem_singleton.mp carried
  have fetched : row ∈ r.batchRows includeTentative limit s := by simp [split]
  have ordered := r.fetchRows_pairwise includeTentative limit
    (r.processReorgMutations includeTentative s.db)
  rw [answers row fetched, mem_seenAfter_single, or_iff_right List.not_mem_nil, List.mem_map]
  refine or_iff_left ?_
  rintro ⟨earlier, member, lower, same⟩
  rw [← DailyRollup.batchRows, split] at ordered
  rw [split] at member
  refine unseen earlier (mem_left_of_lt ordered member lower) ?_
  rw [same]
  exact List.mem_singleton_self _

/-! ## One call -/

/-- After the reorg part a key counts the rows that are behind it. -/
theorem cell_processReorgMutations {s : History Row}
    (counts : ∀ key, column.cell (r.table s.db) key = column.distinctUnder s.folded key)
    (key : Key) :
    column.cell (r.table (r.processReorgMutations includeTentative s.db)) key =
      column.distinctUnder (r.rebuiltRows includeTentative s) key := by
  have behind : column.distinctUnder (r.rebuiltRows includeTentative s) key =
      column.distinctUnder (if key ∈ r.affectedKeys includeTentative s.db then
        r.sourceRows includeTentative s.db.sourceTables else s.folded) key := by
    rw [distinctUnder, DailyRollup.rowsUnder_rebuiltRows]
    rfl
  rw [behind, cell, DailyRollup.lookup_processReorgMutations]
  split_ifs with reached
  · rw [DailyRollup.rebuildAggregateForKey_eq, ← cell_rebuild s.db.sourceTables, Option.map_map]
    refine congrArg (fun read => Option.map read _) (funext fun sum => ?_)
    exact column.stored_store sum.sums
  · exact counts key

/-- The rows of a batch add the addresses that the rows behind a key do not have. -/
theorem distinctUnder_append (first second : List Row) (key : Key) :
    column.distinctUnder (first ++ second) key =
      Option.merge (· + ·) (column.distinctUnder first key)
        (if r.rowsUnder second key = [] then none
        else some ((firstCount column.labelOf (fun _ _ => false)
          (seenAfter (fun row => [column.labelOf row]) [] (r.rowsUnder first key))
          (r.rowsUnder second key) : ℕ) : ℤ)) := by
  have whole : distinctCount column.addressOf (r.rowsUnder (first ++ second) key) =
      distinctCount column.addressOf (r.rowsUnder first key) +
        firstCount column.labelOf (fun _ _ => false)
          (seenAfter (fun row => [column.labelOf row]) [] (r.rowsUnder first key))
          (r.rowsUnder second key) := by
    rw [← distinctCount_labelOf, DailyRollup.rowsUnder_append, distinctCount_append,
      distinctCount_labelOf]
  unfold distinctUnder
  rw [whole, DailyRollup.rowsUnder_append]
  by_cases noFirst : r.rowsUnder first key = []
  · rw [noFirst, List.nil_append, if_pos rfl, Option.merge_none_left]
    simp [distinctCount]
  · rw [if_neg noFirst, if_neg fun nothing => noFirst (List.append_eq_nil_iff.mp nothing).1]
    by_cases noSecond : r.rowsUnder second key = []
    · rw [noSecond, if_pos rfl, Option.merge_none_right]
      rfl
    · rw [if_neg noSecond, Nat.cast_add]
      rfl

/-- **A call whose queries find what has been folded keeps the count.** -/
theorem cell_runOnce {limit : ℕ} {s : History Row}
    (counts : ∀ key, column.cell (r.table s.db) key = column.distinctUnder s.folded key)
    (answers : column.AnswersMatch includeTentative limit s) (key : Key) :
    column.cell (r.table (r.runOnce includeTentative limit s.db)) key =
      column.distinctUnder
        (r.rebuiltRows includeTentative s ++ r.batchRows includeTentative limit s) key := by
  have additive : ∀ a b : Total Stored, column.stored (a + b).sums =
      column.stored a.sums + column.stored b.sums := fun a b => map_add column.stored _ _
  have touched := r.entriesOf_eq_nil_iff s.db.sourceTables
    (markFirst r.labelsOf (r.prior s.db.sourceTables) [] (r.batchRows includeTentative limit s)) key
  rw [DailyRollup.map_fst_markFirst] at touched
  rw [cell, DailyRollup.runOnce, DailyRollup.lookup_foldBatch, map_merge_add additive, ← cell,
    cell_processReorgMutations counts, DailyRollup.processReorgMutations_sourceTables,
    distinctUnder_append]
  refine congrArg _ ?_
  rw [← DailyRollup.batchRows, rebuild, DailyRollup.batchEntries]
  by_cases nothing : r.rowsUnder (r.batchRows includeTentative limit s) key = []
  · rw [if_pos (touched.mpr nothing), if_pos nothing]
    rfl
  · rw [if_neg (mt touched.mp nothing), if_neg nothing]
    refine congrArg some ((column.stored_store _).trans ?_)
    rw [exact_total, marks_batch answers, filter_marks]

/-! ## Runs -/

section Runs

variable (empty : r.table Db.empty = ∅)
  (keeps : ∀ tables mutations db, r.table (db.changed tables mutations) = r.table db)

omit [DecidableEq Label] in
include empty in
theorem counts_empty (key : Key) :
    column.cell (r.table (History.empty : History Row).db) key =
      column.distinctUnder (History.empty : History Row).folded key := by
  rw [cell, History.empty, empty]
  rfl

include keeps in
/-- A change of the source tables leaves the counts alone, a call keeps them. -/
theorem counts_step (s : History Row) (a : ReorgAction) (s' : History Row)
    (counts : ∀ key, column.cell (r.table s.db) key = column.distinctUnder s.folded key)
    (allowed : column.answersMatch includeTentative s a)
    (stepped : r.historyStep includeTentative s a = some s') (key : Key) :
    column.cell (r.table s'.db) key = column.distinctUnder s'.folded key := by
  cases a with
  | change tables mutations =>
      obtain rfl := Option.some.inj stepped
      rw [keeps]
      exact counts key
  | runOnce limit =>
      obtain rfl := Option.some.inj stepped
      exact cell_runOnce counts allowed key

/-- In a run whose queries find what has been folded, the counts are exact. -/
def ExactWhileAnswersMatch (column : DistinctColumn r) (includeTentative : Bool) : Prop :=
  ∀ s, GuardedRun (r.historyStep includeTentative) (column.answersMatch includeTentative)
    History.empty s → column.CountsDistinct s

include empty keeps in
theorem exactWhileAnswersMatch_of_laws : column.ExactWhileAnswersMatch includeTentative := by
  intro s run key
  have counts : ∀ key, column.cell (r.table s.db) key = column.distinctUnder s.folded key :=
    run.invariant (counts_step keeps) (counts_empty empty)
  rw [cell_rebuild]
  exact ⟨counts key, counts key⟩

end Runs

end DistinctColumn

/-! ## The three counters -/

/-- `orch_payouts_daily.distinct_gateways`. -/
def payoutGateways : DistinctColumn orchPayouts where
  addressOf := TicketEventRow.gatewayAddress
  labelOf row := (row.key, row.gatewayAddress)
  counted _ := true
  exact := ⟨⟨PayoutSums.distinctGateways, rfl⟩, fun _ _ => rfl⟩
  stored := ⟨⟨PayoutSums.distinctGateways, rfl⟩, fun _ _ => rfl⟩
  stored_store _ := rfl
  exact_sums _ _ new := congrArg (fun labels => (labels.length : ℤ)) (List.filter_true new).symm
  labelsOf_filter _ := rfl
  labelOf_eq_iff _ _ := Prod.mk_inj

/-- `tickets_daily.distinct_gateways`. -/
def ticketGateways : DistinctColumn tickets where
  addressOf := TicketRow.gatewayAddress
  labelOf row := (row.key, .gateway row.gatewayAddress)
  counted label := label.2.isGateway
  exact := ⟨⟨TicketSums.distinctGateways, rfl⟩, fun _ _ => rfl⟩
  stored := ⟨⟨TicketSums.distinctGateways, rfl⟩, fun _ _ => rfl⟩
  stored_store _ := rfl
  exact_sums _ _ _ := rfl
  labelsOf_filter _ := rfl
  labelOf_eq_iff _ _ := by rw [Prod.mk_inj, TicketParty.gateway.injEq]; rfl

/-- `tickets_daily.distinct_orchestrators`. -/
def ticketOrchestrators : DistinctColumn tickets where
  addressOf := TicketRow.orchestratorAddress
  labelOf row := (row.key, .orchestrator row.orchestratorAddress)
  counted label := !label.2.isGateway
  exact := ⟨⟨TicketSums.distinctOrchestrators, rfl⟩, fun _ _ => rfl⟩
  stored := ⟨⟨TicketSums.distinctOrchestrators, rfl⟩, fun _ _ => rfl⟩
  stored_store _ := rfl
  exact_sums _ _ _ := rfl
  labelsOf_filter _ := rfl
  labelOf_eq_iff _ _ := by rw [Prod.mk_inj, TicketParty.orchestrator.injEq]; rfl

/-- **While the queries find what has been folded, the three counters are exact.** -/
theorem distinctCounts_exact (includeTentative : Bool) :
    payoutGateways.ExactWhileAnswersMatch includeTentative ∧
      ticketGateways.ExactWhileAnswersMatch includeTentative ∧
      ticketOrchestrators.ExactWhileAnswersMatch includeTentative :=
  ⟨DistinctColumn.exactWhileAnswersMatch_of_laws rfl fun _ _ _ => rfl,
    DistinctColumn.exactWhileAnswersMatch_of_laws rfl fun _ _ _ => rfl,
    DistinctColumn.exactWhileAnswersMatch_of_laws rfl fun _ _ _ => rfl⟩

/-! ## Two tickets of a gateway -/

/-- The source tables of some tickets, with their valuations. -/
def ticketTables (events : List RawEvent) : SourceTables where
  rawProtocolEvents := events
  eventValuations := events.foldl (fun table e =>
    table.insert (e.id, "v1", .ETH) (Pipeline.ticketValuation e.id "v1")) ∅
  broadcasterClassifications := ∅

/-- Both tickets are final before they are rolled up, one at a time. -/
def finalTickets : List ReorgAction :=
  [.change (ticketTables [(Pipeline.ticketRow 1 "0xg").finalizedAs 1 0,
    (Pipeline.ticketRow 2 "0xg").finalizedAs 2 0]) [], .runOnce 1, .runOnce 1]

/-- The gateway of both tickets is counted once. -/
theorem finalTickets_counted :
    ∃ s, execute (orchPayouts.historyStep false) History.empty finalTickets = some s ∧
      s.folded.length = 2 ∧ payoutGateways.CountsDistinct s := by
  have executed : execute (orchPayouts.historyStep false) History.empty finalTickets =
      some ((execute (orchPayouts.historyStep false) History.empty finalTickets).get
        (by decide +kernel)) := (Option.some_get _).symm
  have run : GuardedRun (orchPayouts.historyStep false) (payoutGateways.answersMatch false) _ _ :=
    execute_guardedRun executed (by decide +kernel)
  exact ⟨_, executed, by decide +kernel, (distinctCounts_exact false).1 _ run⟩

/-- The second ticket is final before the first. -/
def laterTicketFirst : List ReorgAction :=
  [.change (ticketTables [(Pipeline.ticketRow 1 "0xg").stored 1,
    (Pipeline.ticketRow 2 "0xg").finalizedAs 2 0]) [], .runOnce 10]

/-- **The query finds the ticket that is not final, and the gateway is never counted.** -/
theorem tentativeTicket_hides_gateway : ¬ ∀ s : History TicketEventRow,
    Run (orchPayouts.historyStep false) History.empty s → payoutGateways.CountsDistinct s := by
  intro law
  have executed : execute (orchPayouts.historyStep false) History.empty laterTicketFirst =
      some ((execute (orchPayouts.historyStep false) History.empty laterTicketFirst).get
        (by decide +kernel)) := (Option.some_get _).symm
  have counted := (law _ (execute_run executed) ⟨0, "0xo", "v1", .transcoding⟩).1
  exact absurd counted (by decide +kernel)

end ProtocolExplorer.Rollups
