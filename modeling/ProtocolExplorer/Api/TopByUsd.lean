import ProtocolExplorer.Api.EventPages
import ProtocolExplorer.Lib.FirstOccurrences

/-!
# The most valuable events

`list_by_amount_usd_desc` reads the priced valuations from the largest amount down, page by page
with an offset, and keeps the first row of each event until it has as many events as asked for.
Every page is a query of its own; rows of one amount and one event may come in any order.

* `takeUnseen_eq` — what the loop over a page keeps;
* `scanPages_eq` — the pages end, with the beginning of the first occurrences of all rows;
* `topByUsd_exact` — **the answer is the beginning of the events in order of their largest amount**.
-/

set_option autoImplicit false

namespace ProtocolExplorer.Api.EventPages

open ProtocolExplorer.Lib
open ProtocolExplorer.Store (Numeric Version RawEvent ValuationRow)

/-! ## The query -/

/-- The `WHERE` clauses of the list by amount. -/
def EventsQuery.selectsTop (q : EventsQuery) (e : RawEvent) : Bool :=
  e.isValuable && (q.includeReorged || e.isCanonical) &&
    (q.includeTentative || decide (e.finality = .finalized))

section Query

variable (q : EventsQuery) (defaultVersion : Version) (valuations : List ValuationRow)
  (events : List RawEvent)

/-- The joined rows; an event has one for each of its priced valuations. -/
def topRows : List (RawEvent × Numeric) :=
  valuations.flatMap fun v =>
    (v.amountUsd.toList.filter fun _ => decide (v.valuationVersion = defaultVersion)).flatMap
      fun usd => (events.filter fun e => decide (e.id = v.eventId) && q.selectsTop e).map
        fun e => (e, usd)

/-- `ORDER BY v.amount_usd DESC, v.event_id DESC`. -/
def amountKey (row : RawEvent × Numeric) : Lex (OrderDual Numeric × OrderDual ℤ) :=
  toLex (OrderDual.toDual row.2, OrderDual.toDual row.1.id)

/-- The rows of the query with `LIMIT` and `OFFSET`. -/
def topPage (order : ScanOrder (RawEvent × Numeric)) (batchSize offset : ℕ) : List RawEvent :=
  (((order.orderBy amountKey (topRows q defaultVersion valuations events)).drop offset).take
    batchSize).map Prod.fst

end Query

/-! ## The loop -/

/-- The events found and their ids. -/
abbrev Found := List EventRow × Finset ℤ

/-- The loop over the rows of a page. -/
def takeUnseen (limit : ℕ) : List RawEvent → Found → Found
  | [], found => found
  | row :: rest, found =>
      if row.id ∈ found.2 then takeUnseen limit rest found
      else
        let events := found.1 ++ [rowToEvent row]
        let seen := insert row.id found.2
        if events.length = limit then (events, seen) else takeUnseen limit rest (events, seen)

/-- `(limit * 4).clamp(100, 5_000)`. -/
def overscan (limit : ℕ) : ℕ := min (max (limit * 4) 100) 5000

/-- The loop over the pages; the fuel bounds it. -/
def scanPages (page : ℕ → List RawEvent) (limit : ℕ) : ℕ → ℕ → Found → Option (List EventRow)
  | 0, _, _ => none
  | fuel + 1, offset, found =>
      if found.1.length < limit then
        let rows := page offset
        if rows.isEmpty then some found.1
        else
          let found := takeUnseen limit rows found
          if rows.length < overscan limit then some found.1
          else scanPages page limit fuel (offset + overscan limit) found
      else some found.1

/-- `list_by_amount_usd_desc`; the database may scan the tables in another order for every page. -/
def listByAmountUsdDesc (orders : ℕ → ScanOrder (RawEvent × Numeric)) (q : EventsQuery)
    (defaultVersion : Version) (valuations : List ValuationRow) (events : List RawEvent)
    (limit fuel : ℕ) : Option (List EventRow) :=
  scanPages
    (fun offset => topPage q defaultVersion valuations events (orders offset) (overscan limit) offset)
    limit fuel 0 ([], ∅)

/-! ## Its specification -/

section Ranking

variable (q : EventsQuery) (defaultVersion : Version) (valuations : List ValuationRow)

/-- The amounts of an event's valuations. -/
def usdAmounts (e : RawEvent) : List Numeric :=
  valuations.filterMap fun v =>
    if v.eventId = e.id ∧ v.valuationVersion = defaultVersion then v.amountUsd else none

/-- An event that is selected and priced. -/
def eligible (e : RawEvent) : Bool :=
  q.selectsTop e && !(usdAmounts defaultVersion valuations e).isEmpty

/-- The largest amount of an event, then its id, both descending. -/
def rank (e : RawEvent) : Lex (OrderDual (WithBot Numeric) × OrderDual ℤ) :=
  toLex (OrderDual.toDual (usdAmounts defaultVersion valuations e).toFinset.max,
    OrderDual.toDual e.id)

/-- The eligible events, the most valuable first. -/
def ranked (events : List RawEvent) : List RawEvent :=
  orderBy (rank defaultVersion valuations) (events.filter (eligible q defaultVersion valuations))

end Ranking

/-! ## One page -/

section Pages

variable {limit : ℕ}

/-- What the loop over a page keeps, after the rows of the pages before it. -/
theorem takeUnseen_eq {before rows : List RawEvent} {found : Found}
    (listed : found.1 = (distinctOn (·.id) before).map rowToEvent)
    (seen : found.2 = (before.map (·.id)).toFinset)
    (short : (distinctOn (·.id) before).length < limit) :
    (takeUnseen limit rows found).1 =
        ((distinctOn (·.id) (before ++ rows)).take limit).map rowToEvent ∧
      ((distinctOn (·.id) (before ++ rows)).length < limit →
        (takeUnseen limit rows found).2 = ((before ++ rows).map (·.id)).toFinset) := by
  induction rows generalizing before found with
  | nil =>
      rw [List.append_nil, List.take_of_length_le short.le]
      exact ⟨listed, fun _ => seen⟩
  | cons row rest inductionHypothesis =>
      have split : before ++ row :: rest = before ++ [row] ++ rest := by
        rw [List.append_assoc, List.singleton_append]
      have kept := distinctOn_concat (fun e : RawEvent => e.id) before row
      have old : row.id ∈ found.2 ↔ row.id ∈ before.map (·.id) := by rw [seen, List.mem_toFinset]
      have more : insert row.id found.2 = ((before ++ [row]).map (·.id)).toFinset := by
        rw [seen, List.map_append, List.toFinset_append]
        simp
      rw [split, takeUnseen]
      dsimp only
      split_ifs with again full
      · rw [if_pos (old.mp again)] at kept
        refine inductionHypothesis (by rw [kept, listed]) ?_ (by rwa [kept])
        rw [← more, Finset.insert_eq_self.mpr again]
      · -- the page is not read any further
        rw [if_neg fun member => again (old.mpr member)] at kept
        have enough : (distinctOn (·.id) (before ++ [row])).length = limit := by
          rw [← full, listed, kept]
          simp
        have begins := distinctOn_prefix (fun e : RawEvent => e.id) (before ++ [row]) rest
        constructor
        · rw [← enough, ← List.prefix_iff_eq_take.mp begins, kept, listed, List.map_append]
          rfl
        · intro fewer
          exact absurd begins.length_le (by omega)
      · rw [if_neg fun member => again (old.mpr member)] at kept
        have length : (distinctOn (·.id) (before ++ [row])).length ≠ limit := by
          rw [kept]
          intro same
          refine full ?_
          rw [listed, ← same]
          simp
        refine inductionHypothesis ?_ more (lt_of_le_of_ne ?_ length)
        · rw [kept, listed, List.map_append]
          rfl
        · rw [kept, List.length_append]
          exact short

/-- **The pages end**, with the beginning of the first occurrences of all rows. -/
theorem scanPages_eq {rows : List RawEvent} {page : ℕ → List RawEvent} {fuel offset : ℕ}
    {found : Found} (pages : ∀ offset, page offset = (rows.drop offset).take (overscan limit))
    (within : offset ≤ rows.length) (enough : rows.length < offset + fuel)
    (listed : found.1 = ((distinctOn (·.id) (rows.take offset)).take limit).map rowToEvent)
    (seen : (distinctOn (·.id) (rows.take offset)).length < limit →
      found.2 = ((rows.take offset).map (·.id)).toFinset) :
    scanPages page limit fuel offset found =
      some (((distinctOn (·.id) rows).take limit).map rowToEvent) := by
  have positive : 0 < overscan limit := by
    unfold overscan
    omega
  have begins : ∀ offset, distinctOn (·.id) (rows.take offset) <+: distinctOn (·.id) rows := by
    intro offset
    have prefixed := distinctOn_prefix (fun e : RawEvent => e.id) (rows.take offset)
      (rows.drop offset)
    rwa [List.take_append_drop] at prefixed
  induction fuel generalizing offset found with
  | zero => omega
  | succ fuel inductionHypothesis =>
      have length : found.1.length = min limit (distinctOn (·.id) (rows.take offset)).length := by
        rw [listed, List.length_map, List.length_take]
      rw [scanPages]
      dsimp only
      by_cases more : found.1.length < limit
      · have short : (distinctOn (·.id) (rows.take offset)).length < limit := by omega
        rw [List.take_of_length_le short.le] at listed
        rw [if_pos more, pages]
        split_ifs with empty last
        · -- no row is left
          rw [List.isEmpty_iff, List.take_eq_nil_iff, or_iff_right positive.ne',
            List.drop_eq_nil_iff] at empty
          rw [List.take_of_length_le empty] at listed short
          rw [listed, List.take_of_length_le short.le]
        · obtain ⟨kept, _⟩ := @takeUnseen_eq limit (rows.take offset)
            ((rows.drop offset).take (overscan limit)) found listed (seen short) short
          rw [List.length_take, List.length_drop] at last
          have all : rows.take (offset + overscan limit) = rows :=
            List.take_of_length_le (by omega)
          rw [kept, ← List.take_add, all]
        · obtain ⟨kept, keptSeen⟩ := @takeUnseen_eq limit (rows.take offset)
            ((rows.drop offset).take (overscan limit)) found listed (seen short) short
          rw [← List.take_add] at kept keptSeen
          rw [List.length_take, List.length_drop] at last
          exact inductionHypothesis (by omega) (by omega) kept keptSeen
      · -- the limit is reached
        have full : (distinctOn (·.id) (rows.take offset)).take limit =
            (distinctOn (·.id) rows).take limit := by
          have reached : limit ≤ (distinctOn (·.id) (rows.take offset)).length := by omega
          obtain ⟨rest, whole⟩ := begins offset
          rw [← whole, List.take_append_of_le_length reached]
        rw [if_neg more, listed, full]

end Pages

/-! ## The ranking -/

section Rows

variable {q : EventsQuery} {defaultVersion : Version} {valuations : List ValuationRow}
  {events : List RawEvent}

theorem mem_usdAmounts {e : RawEvent} {usd : Numeric} :
    usd ∈ usdAmounts defaultVersion valuations e ↔ ∃ v ∈ valuations,
      v.eventId = e.id ∧ v.valuationVersion = defaultVersion ∧ v.amountUsd = some usd := by
  simp only [usdAmounts, List.mem_filterMap, Option.ite_none_right_eq_some, and_assoc]

theorem mem_topRows {row : RawEvent × Numeric} : row ∈ topRows q defaultVersion valuations events ↔
    row.1 ∈ events ∧ q.selectsTop row.1 = true ∧
      row.2 ∈ usdAmounts defaultVersion valuations row.1 := by
  obtain ⟨e, usd⟩ := row
  simp only [topRows, mem_usdAmounts, List.mem_flatMap, List.mem_filter, Option.mem_toList,
    List.mem_map, Bool.and_eq_true, decide_eq_true_eq, Prod.mk.injEq]
  constructor
  · rintro ⟨v, stored, amount, ⟨priced, version⟩, other, ⟨member, same, selected⟩, rfl, rfl⟩
    exact ⟨member, selected, v, stored, same.symm, version, priced⟩
  · rintro ⟨member, selected, v, stored, same, version, priced⟩
    exact ⟨v, stored, usd, ⟨priced, version⟩, e, ⟨member, same.symm, selected⟩, rfl, rfl⟩

/-- The first row of an event has its largest amount. -/
theorem rank_of_mem_distinctOn (order : ScanOrder (RawEvent × Numeric))
    {row : RawEvent × Numeric}
    (first : row ∈ distinctOn (fun row : RawEvent × Numeric => row.1.id)
      (order.orderBy amountKey (topRows q defaultVersion valuations events))) :
    rank defaultVersion valuations row.1 =
      toLex (OrderDual.toDual (row.2 : WithBot Numeric), OrderDual.toDual row.1.id) := by
  have perm := order.orderBy_perm amountKey (topRows q defaultVersion valuations events)
  have own := mem_topRows.mp (perm.mem_iff.mp (mem_of_mem_distinctOn first))
  have largest : (usdAmounts defaultVersion valuations row.1).toFinset.max =
      (row.2 : WithBot Numeric) := by
    refine le_antisymm (Finset.max_le fun usd member => ?_)
      (Finset.le_max (List.mem_toFinset.mpr own.2.2))
    have listed : (row.1, usd) ∈ order.orderBy amountKey
        (topRows q defaultVersion valuations events) :=
      perm.mem_iff.mpr (mem_topRows.mpr ⟨own.1, own.2.1, List.mem_toFinset.mp member⟩)
    have before := key_le_of_mem_distinctOn (orderBy_pairwise amountKey _) first listed rfl
    rcases Prod.Lex.le_iff.mp before with above | ⟨same, _⟩
    · exact WithBot.coe_le_coe.mpr (OrderDual.toDual_lt_toDual.mp above).le
    · exact WithBot.coe_le_coe.mpr (OrderDual.toDual_inj.mp same).ge
  rw [rank, largest]

/-- The first occurrences are the eligible events in order of their ranks. -/
theorem distinctOn_topRows (distinct : (events.map (·.id)).Nodup)
    (order : ScanOrder (RawEvent × Numeric)) :
    distinctOn (·.id) ((order.orderBy amountKey
        (topRows q defaultVersion valuations events)).map Prod.fst) =
      ranked q defaultVersion valuations events := by
  have byId : ∀ {a b : RawEvent}, a ∈ events → b ∈ events → a.id = b.id → a = b :=
    fun inA inB same => List.inj_on_of_nodup_map distinct inA inB same
  have perm := order.orderBy_perm amountKey (topRows q defaultVersion valuations events)
  have ranks := @rank_of_mem_distinctOn q defaultVersion valuations events order
  have sorted : (order.orderBy amountKey (topRows q defaultVersion valuations events)).Pairwise
      fun a b => amountKey a ≤ amountKey b := orderBy_pairwise amountKey _
  rw [distinctOn_map]
  generalize order.orderBy amountKey (topRows q defaultVersion valuations events) = rows at *
  have apart := nodup_distinctOn (fun row : RawEvent × Numeric => row.1.id) rows
  have ascending := sorted.sublist
    (distinctOn_sublist (fun row : RawEvent × Numeric => row.1.id) rows)
  have stored : ∀ {row}, row ∈ distinctOn (fun row : RawEvent × Numeric => row.1.id) rows →
      row ∈ topRows q defaultVersion valuations events :=
    fun first => perm.mem_iff.mp (mem_of_mem_distinctOn first)
  have sameEvents : ∀ e : RawEvent,
      e ∈ (distinctOn (fun row : RawEvent × Numeric => row.1.id) rows).map Prod.fst ↔
        e ∈ events.filter (eligible q defaultVersion valuations) := by
    intro e
    rw [List.mem_map, List.mem_filter, eligible, Bool.and_eq_true, Bool.not_eq_true',
      List.isEmpty_eq_false_iff_exists_mem]
    constructor
    · rintro ⟨row, first, rfl⟩
      obtain ⟨member, selected, amount⟩ := mem_topRows.mp (stored first)
      exact ⟨member, selected, row.2, amount⟩
    · rintro ⟨member, selected, usd, amount⟩
      obtain ⟨kept, first, same⟩ :=
        @exists_mem_distinctOn _ _ _ (fun row : RawEvent × Numeric => row.1.id) rows _
          (perm.mem_iff.mpr (mem_topRows.mpr ⟨member, selected, amount⟩ :
            (e, usd) ∈ topRows q defaultVersion valuations events))
      exact ⟨kept, first, byId (mem_topRows.mp (stored first)).1 member same⟩
  have once : ((distinctOn (fun row : RawEvent × Numeric => row.1.id) rows).map Prod.fst).Nodup :=
    List.Nodup.of_map (fun e : RawEvent => e.id) (by rwa [List.map_map])
  have onceStored : (events.filter (eligible q defaultVersion valuations)).Nodup :=
    (List.Nodup.of_map _ distinct).filter _
  refine List.Perm.eq_of_pairwise ?_ ?_
    (orderBy_pairwise (rank defaultVersion valuations) _) ?_
  · intro a b inA inB below above
    have inEventsA := (List.mem_filter.mp ((sameEvents a).mp inA)).1
    have inEventsB := (List.mem_filter.mp (mem_orderBy.mp inB)).1
    have same := toLex_inj.mp (le_antisymm below above)
    exact byId inEventsA inEventsB (OrderDual.toDual_inj.mp (Prod.mk.inj same).2)
  · refine List.pairwise_map.mpr (ascending.imp_of_mem ?_)
    intro a b inA inB before
    rw [ranks inA, ranks inB]
    rcases Prod.Lex.le_iff.mp before with above | ⟨same, below⟩
    · refine Prod.Lex.le_iff.mpr (Or.inl ?_)
      exact OrderDual.toDual_lt_toDual.mpr
        (WithBot.coe_lt_coe.mpr (OrderDual.toDual_lt_toDual.mp above))
    · refine Prod.Lex.le_iff.mpr (Or.inr ⟨?_, below⟩)
      exact congrArg (fun usd : Numeric => OrderDual.toDual (usd : WithBot Numeric))
        (OrderDual.toDual_inj.mp same)
  · exact ((List.perm_ext_iff_of_nodup once onceStored).mpr sameEvents).trans
      (orderBy_perm _ _).symm

end Rows

/-- **The list by amount** ends, and answers the first events in order of their largest amount:
as many as asked for or as there are, none of them twice. -/
theorem topByUsd_exact (orders : ℕ → ScanOrder (RawEvent × Numeric)) (q : EventsQuery)
    (defaultVersion : Version) (valuations : List ValuationRow) {events : List RawEvent}
    (limit : ℕ) (distinct : (events.map (·.id)).Nodup) :
    ∃ fuel answer,
      listByAmountUsdDesc orders q defaultVersion valuations events limit fuel = some answer ∧
      answer = ((ranked q defaultVersion valuations events).take limit).map rowToEvent ∧
      answer.length =
        min limit (events.filter (eligible q defaultVersion valuations)).length ∧
      (answer.map EventRow.id).Nodup := by
  have factors : ∀ a ∈ topRows q defaultVersion valuations events,
      ∀ b ∈ topRows q defaultVersion valuations events, amountKey a = amountKey b → a.1 = b.1 := by
    intro a inA b inB same
    refine List.inj_on_of_nodup_map distinct (mem_topRows.mp inA).1 (mem_topRows.mp inB).1 ?_
    exact OrderDual.toDual_inj.mp (Prod.mk.inj (toLex_inj.mp same)).2
  have pages : ∀ offset, topPage q defaultVersion valuations events (orders offset)
      (overscan limit) offset = (((((orders 0).orderBy amountKey
        (topRows q defaultVersion valuations events)).map Prod.fst).drop offset).take
          (overscan limit)) := by
    intro offset
    rw [topPage, List.map_take, List.map_drop,
      map_orderBy_of_factors (orders offset) (orders 0) factors]
  have perm : (ranked q defaultVersion valuations events).Perm
      (events.filter (eligible q defaultVersion valuations)) := orderBy_perm _ _
  have ended := @scanPages_eq limit _ _ ((((orders 0).orderBy amountKey
      (topRows q defaultVersion valuations events)).map Prod.fst).length + 1) 0 ([], ∅) pages
    (Nat.zero_le _) (by omega) (by rw [List.take_zero, distinctOn, List.take_nil, List.map_nil])
    fun _ => rfl
  refine ⟨_, _, ended, ?_, ?_, ?_⟩
  all_goals rw [distinctOn_topRows distinct]
  · rw [List.length_map, List.length_take, perm.length_eq]
  · have ids : (((ranked q defaultVersion valuations events).take limit).map rowToEvent).map
        EventRow.id = ((ranked q defaultVersion valuations events).take limit).map
          fun e => e.id := by
      rw [List.map_map]
      rfl
    rw [ids]
    have all : ((ranked q defaultVersion valuations events).map fun e => e.id).Nodup :=
      (perm.map _).nodup_iff.mpr (distinct.sublist (List.filter_sublist.map _))
    exact all.sublist ((List.take_sublist _ _).map _)

/-- The valuation of one asset of an event. -/
def pricedAs (eventId : ℤ) (asset : Store.Asset) (usd : Numeric) : ValuationRow where
  eventId
  valuationVersion := "v1"
  asset
  pricingMethod := "onchain"
  source := "chainlink"
  status := .priced
  blockNumber := 100
  amountNative := ⟨1⟩
  nativeUsdPrice := some usd
  amountUsd := some usd
  pricingChain := "null"

/-- Two events, the first of which has two valuations. -/
theorem topByUsd_twins : ∃ fuel answer,
    listByAmountUsdDesc (fun _ => storedOrder _) (withReorged 2) "v1"
      [pricedAs 1 .LPT ⟨3⟩, pricedAs 2 .ETH ⟨4⟩, pricedAs 1 .ETH ⟨5⟩]
      (twins.map fun e => { e with isValuable := true }) 2 fuel = some answer ∧
    answer.length = 2 ∧ (answer.map EventRow.id).Nodup := by
  obtain ⟨fuel, answer, ended, _, length, once⟩ := topByUsd_exact (fun _ => storedOrder _)
    (withReorged 2) "v1" [pricedAs 1 .LPT ⟨3⟩, pricedAs 2 .ETH ⟨4⟩, pricedAs 1 .ETH ⟨5⟩]
    2 (by decide : ((twins.map fun e => { e with isValuable := true }).map fun e => e.id).Nodup)
  exact ⟨fuel, answer, ended, length.trans (by decide), once⟩

end ProtocolExplorer.Api.EventPages
