import ProtocolExplorer.Api.EventPages
import ProtocolExplorer.Api.SummaryWindows
import ProtocolExplorer.Lib.Numerals
import ProtocolExplorer.Lib.WindowAverages
import ProtocolExplorer.Rollups.Completeness
import ProtocolExplorer.Rollups.ServedColumns

/-!
# Two ways to aggregate events

`/aggregations/events` counts and sums the events of a range by day, week or month.  A request
without an address, in UTC, whose upper bound the rollup is thought to cover is answered from
`event_metrics_daily`, every other one from the events themselves.  The daily table knows days, not
blocks or instants, and holds a row for every version under which an event is valued.

* `sum_foldedRows` — the folded rows behind the keys that are read are the selected events;
* `aggregateFromRollup_eq` — **when both ways agree**;
* `blockWithinDay_disagrees`, `covers_is_not_enough` — when they do not.
-/

set_option autoImplicit false

namespace ProtocolExplorer.Api.Aggregations

open ProtocolExplorer.Lib
open ProtocolExplorer.Store
open ProtocolExplorer.Rollups
open ProtocolExplorer.Api.EventPages (Casing assetText eventText)
open ProtocolExplorer.Api.SummaryWindows (Failure NaiveDate DateLibrary)
open ProtocolExplorer.Indexer (NumberedRows)
open ProtocolExplorer.Indexer.Wire (contractText)

/-! ## Requests -/

inductive Bucket where
  | day
  | week
  | month
  deriving DecidableEq

inductive Metric where
  | count
  | sumAmountNative
  | sumAmountUsd
  | avgAmountUsd
  deriving DecidableEq

structure AggregationsQuery where
  contract : Option String
  eventName : Option String
  bucket : String
  fromText : Option String
  toText : Option String
  address : Option String
  fromAddress : Option String
  toAddress : Option String
  asset : Option String
  metric : String
  valuationVersion : Option String
  tz : Option String
  deriving DecidableEq

/-- A parsed `from` or `to`: a block, or the midnight of a day. -/
inductive Bound where
  | block (number : ℤ)
  | midnight (day : ℤ)
  deriving DecidableEq

/-- What the standard library and the database compute. -/
structure Library extends DateLibrary, Casing where
  /-- `date_trunc` in a time zone other than UTC. -/
  truncate : String → Bucket → Timestamp → Timestamp
  /-- The text of a `NUMERIC` divided by a number of rows. -/
  quotientText : Numeric → ℤ → String

/-- 1 January 1970. -/
def epoch : CivilDate := ⟨1970, 1, 1, CivilDate.january, by decide⟩

/-- Days since the epoch. -/
def daysOf (date : CivilDate) : ℤ := date.dayNumber - epoch.dayNumber

/-- The date of a day. -/
def dateOf (day : ℤ) : CivilDate :=
  if 0 ≤ day then CivilDate.next^[day.toNat] epoch else CivilDate.prev^[(-day).toNat] epoch

theorem daysOf_dateOf (day : ℤ) : daysOf (dateOf day) = day := by
  unfold daysOf dateOf
  split
  · rw [CivilDate.dayNumber_next_iterate]
    omega
  · rw [CivilDate.dayNumber_prev_iterate]
    omega

/-- `date_trunc` of a day. -/
def Bucket.start (day : ℤ) : Bucket → ℤ
  | .day => day
  | .week => daysOf (dateOf day).monday
  | .month => daysOf (dateOf day).monthStart

/-- The first instant of a day, in UTC. -/
def midnightOf (day : ℤ) : Timestamp := day * (86400 * 1000000)

def parseBucket (lib : Library) (text : String) : Except Failure Bucket :=
  match text with
  | "day" => .ok .day
  | "week" => .ok .week
  | "month" => .ok .month
  | other => .error (.badRequest
      ("invalid bucket " ++ lib.debug other ++ "; use day | week | month"))

def parseMetric (lib : Library) (text : String) : Except Failure Metric :=
  match text with
  | "count" => .ok .count
  | "sum_amount_native" => .ok .sumAmountNative
  | "sum_amount_usd" => .ok .sumAmountUsd
  | "avg_amount_usd" => .ok .avgAmountUsd
  | other => .error (.badRequest ("invalid metric " ++ lib.debug other ++
      "; use count | sum_amount_native | sum_amount_usd | avg_amount_usd"))

/-- `parse_from_to`. -/
def parseFromTo (lib : Library) : Option String → Except Failure (Option Bound)
  | none => .ok none
  | some text =>
      match parseInt 64 text.toList with
      | some number => .ok (some (.block number))
      | none =>
          match lib.parseFromStr text with
          | some date => .ok (some (.midnight (daysOf date.toCivilDate)))
          | none => .error (.badRequest
              ("invalid from/to: " ++ lib.debug text ++ "; use YYYY-MM-DD or a block number"))

/-- A request after its parameters have been read. -/
structure Request where
  query : AggregationsQuery
  bucket : Bucket
  metric : Metric
  fromBound : Option Bound
  toBound : Option Bound
  /-- The version of the metrics that need one. -/
  version : Option Version
  deriving DecidableEq

structure BucketRow where
  bucketStart : Timestamp
  count : String
  value : Option String
  deriving DecidableEq

structure AggregationsResponse where
  bucket : String
  tz : String
  metric : String
  valuationVersion : Option Version
  source : String
  results : List BucketRow

/-- `MAX_BUCKETS`. -/
def maxBuckets : ℕ := 1000

/-- `COALESCE(SUM(_), 0)::TEXT`. -/
def sumText (sum : Option Numeric) : String :=
  sum.elim "0" fun amount => numericText 18 amount.units

/-- `SUM` of the values that are there. -/
def sumOf (amounts : List Numeric) : Option Numeric :=
  if amounts = [] then none else some amounts.sum

namespace Request

variable (lib : Library) (r : Request) (db : Db)

/-! ## From the events -/

/-- The filters on contract, event and asset. -/
def names (contract : ContractKind) (eventName : EventName) (asset : Option Asset) : Bool :=
  r.query.contract.all (fun name => decide (contractText contract = name)) &&
    r.query.eventName.all (fun name => decide (eventText eventName = name)) &&
    r.query.asset.all fun name => decide (asset.map assetText = some (lib.toUppercase name))

/-- The filters on addresses. -/
def addresses (e : RawEvent) : Bool :=
  r.query.fromAddress.all (fun addr => decide (e.fromAddress = some (lib.toLowercase addr))) &&
    r.query.toAddress.all (fun addr => decide (e.toAddress = some (lib.toLowercase addr))) &&
    r.query.address.all fun addr => decide (e.fromAddress = some (lib.toLowercase addr)) ||
      decide (e.toAddress = some (lib.toLowercase addr))

/-- The bounds of the scan. -/
def inBounds (e : RawEvent) : Bool :=
  (match r.fromBound with
    | none => true
    | some (.block number) => decide (number ≤ e.blockNumber)
    | some (.midnight day) => decide (midnightOf day ≤ e.blockTimestamp)) &&
  match r.toBound with
    | none => true
    | some (.block number) => decide (e.blockNumber ≤ number)
    | some (.midnight day) => decide (e.blockTimestamp ≤ midnightOf day)

/-- The `WHERE` clauses of the scan. -/
def selects (e : RawEvent) : Bool :=
  e.isValuable && e.isCanonical && r.names lib e.contractName e.eventName e.asset &&
    r.addresses lib e && r.inBounds e

/-- The left join on the valuations. -/
def valuationOf (e : RawEvent) : Option ValuationRow := do
  let version ← r.version
  let asset ← e.asset
  db.eventValuations.lookup (e.id, version, asset)

/-- The metric of the rows of a bucket. -/
def rawValue (rows : List (Option ValuationRow)) : Option String :=
  let natives := (rows.filterMap id).map fun v => v.amountNative
  let usds := rows.filterMap fun v => v.bind ValuationRow.amountUsd
  match r.metric with
  | .count => none
  | .sumAmountNative => some (sumText (sumOf natives))
  | .sumAmountUsd => some (sumText (sumOf usds))
  | .avgAmountUsd =>
      some (if usds = [] then "0" else lib.quotientText usds.sum usds.length)

/-- `date_trunc(_, block_timestamp AT TIME ZONE _) AT TIME ZONE _`. -/
def startOf (tz : String) (e : RawEvent) : Timestamp :=
  if tz = "UTC" then midnightOf (r.bucket.start (dayUtc e.blockTimestamp))
  else lib.truncate tz r.bucket e.blockTimestamp

/-- The selected events of a bucket. -/
def bucketEvents (tz : String) (start : Timestamp) : List RawEvent :=
  (db.rawProtocolEvents.filter (r.selects lib)).filter fun e => decide (r.startOf lib tz e = start)

/-- `aggregate_from_raw_events`. -/
def aggregateFromRawEvents (tz : String) : List BucketRow :=
  let starts := ((db.rawProtocolEvents.filter (r.selects lib)).map (r.startOf lib tz)).toFinset
  ((sortKeys starts).take maxBuckets).map fun start =>
    let group := r.bucketEvents lib db tz start
    { bucketStart := start
      count := toString (group.length : ℤ)
      value := r.rawValue lib (group.map (r.valuationOf db)) }

/-! ## From the rollup -/

/-- The lower bound of the days: that of the first event from the block on. -/
def fromDay : Option ℤ :=
  match r.fromBound with
  | none => none
  | some (.block number) =>
      (((db.rawProtocolEvents.filter fun e => decide (number ≤ e.blockNumber)).map
        (·.blockTimestamp)).min?).map dayUtc
  | some (.midnight day) => some day

/-- The upper bound: that of the last event up to the block. -/
def toDay : Option ℤ :=
  match r.toBound with
  | none => none
  | some (.block number) =>
      (((db.rawProtocolEvents.filter fun e => decide (e.blockNumber ≤ number)).map
        (·.blockTimestamp)).max?).map dayUtc
  | some (.midnight day) => some day

/-- The filters on the day. -/
def inDays (day : ℤ) : Bool :=
  (r.fromDay db).all (fun first => decide (first ≤ day)) &&
    (r.toDay db).all fun last => decide (day ≤ last)

/-- The `WHERE` clauses on the rollup. -/
def reads (key : EventMetricsKey) : Bool :=
  r.names lib key.contractName key.eventName (some key.asset) && r.inDays db key.dayUtc &&
    r.version.all fun version => decide (key.valuationVersion = version)

/-- The bucket of a daily row. -/
def startOfKey (key : EventMetricsKey) : Timestamp := midnightOf (r.bucket.start key.dayUtc)

/-- A summed column of the rows of a bucket. -/
def served {Column : Type} [AddCommMonoid Column] (column : EventMetricsSums → Column)
    (start : Timestamp) : Column :=
  eventMetrics.servedColumn column
    (fun key => r.reads lib db key && decide (r.startOfKey key = start)) db

/-- The metric of a bucket; `get` panics on the `NULL` of a division by no row. -/
def rollupValue (start : Timestamp) : Except Failure (Option String) :=
  let usd := r.served lib db EventMetricsSums.sumAmountUsd start
  let priced := r.served lib db EventMetricsSums.usdRowsPriced start
  match r.metric with
  | .count => .ok none
  | .sumAmountNative =>
      .ok (some (sumText (some (r.served lib db EventMetricsSums.sumAmountNative start))))
  | .sumAmountUsd => .ok (some (sumText (some usd)))
  | .avgAmountUsd =>
      if priced = 0 then .error .panicked else .ok (some (lib.quotientText usd priced))

/-- `aggregate_from_rollup`. -/
def aggregateFromRollup : Except Failure (List BucketRow) :=
  let keys := db.eventMetricsDaily.keys.filter fun key => r.reads lib db key = true
  ((sortKeys (keys.image r.startOfKey)).take maxBuckets).mapM fun start => do
    let value ← r.rollupValue lib db start
    return { bucketStart := start
             count := toString (r.served lib db EventMetricsSums.eventCount start)
             value := value }

/-! ## The choice -/

/-- The request names no address and is in UTC. -/
def isPlain : Bool :=
  r.query.address.isNone && r.query.fromAddress.isNone && r.query.toAddress.isNone &&
    decide (r.query.tz.getD "UTC" = "UTC")

/-- `rollup_covers_range`. -/
def rollupCoversRange : Bool :=
  match db.loadCheckpoint (.rollup .eventMetricsDaily) with
  | none => false
  | some checkpoint =>
      match db.rawProtocolEvents.find? fun e => decide (e.id = checkpoint) with
      | none => false
      | some last =>
          match r.toBound with
          | none => false
          | some (.block number) => decide (number ≤ last.blockNumber)
          | some (.midnight day) => decide (midnightOf day ≤ last.blockTimestamp)

end Request

/-- What the handler reads from a query. -/
def readRequest (lib : Library) (defaultVersion : Version) (q : AggregationsQuery) :
    Except Failure Request := do
  let bucket ← parseBucket lib q.bucket
  let metric ← parseMetric lib q.metric
  let fromBound ← parseFromTo lib q.fromText
  let toBound ← parseFromTo lib q.toText
  return { query := q, bucket, metric, fromBound, toBound
           version := if metric = .count then none
             else some (q.valuationVersion.getD defaultVersion) }

/-- `events`. -/
def events (lib : Library) (defaultVersion : Version) (db : Db) (q : AggregationsQuery) :
    Except Failure AggregationsResponse := do
  let r ← readRequest lib defaultVersion q
  let tz := q.tz.getD "UTC"
  let respond (source : String) (results : List BucketRow) : AggregationsResponse :=
    { bucket := q.bucket, tz, metric := q.metric, valuationVersion := r.version, source, results }
  if r.isPlain && r.rollupCoversRange db then
    let results ← r.aggregateFromRollup lib db
    return respond "rollup" results
  else return respond "raw_events" (r.aggregateFromRawEvents lib db tz)

/-! ## What both ways have in common -/

/-- The event is valued under the version asked for; without one, under one version. -/
def Request.valuedOnce (r : Request) (db : Db) (e : RawEvent) : Bool :=
  e.asset.any fun asset =>
    let versions := db.sourceTables.versionsOf e.id asset
    match r.version with
    | none => decide (versions.length = 1)
    | some version => decide (version ∈ versions)

/-- A request that both ways can answer: the rollup is up to date and has folded the selected
events, the bounds make whole days, every selected event is finalized and valued, and a bucket of
USD amounts has one. -/
structure Comparable (lib : Library) (r : Request) (db : Db) : Prop where
  upToDate : eventMetrics.UpToDate false db
  reached : ∀ checkpoint ∈ eventMetrics.checkpoint db, ∀ e ∈ db.rawProtocolEvents,
    r.selects lib e = true → e.id ≤ checkpoint
  wholeDays : ∀ e ∈ db.rawProtocolEvents, e.isValuable = true → e.isCanonical = true →
    r.names lib e.contractName e.eventName e.asset = true →
      r.inBounds e = r.inDays db (dayUtc e.blockTimestamp)
  valued : ∀ e ∈ db.rawProtocolEvents, r.selects lib e = true →
    e.finality = .finalized ∧ r.valuedOnce db e = true
  priced : r.metric = .sumAmountUsd ∨ r.metric = .avgAmountUsd →
    ∀ e ∈ db.rawProtocolEvents, r.selects lib e = true →
      ∃ other ∈ db.rawProtocolEvents, r.selects lib other = true ∧
        r.startOf lib "UTC" other = r.startOf lib "UTC" e ∧
        ((r.valuationOf db other).bind ValuationRow.amountUsd).isSome = true

/-! ## The valuations of an event -/

/-- A version under which an event is valued occurs once. -/
theorem filter_versionsOf (tables : SourceTables) (eventId : ℤ) (asset : Asset)
    (version : Version) :
    (tables.versionsOf eventId asset).filter (fun v => decide (v = version)) =
      if version ∈ tables.versionsOf eventId asset then [version] else [] := by
  have distinct : (tables.versionsOf eventId asset).Nodup := nodup_sortKeys _
  rw [List.filter_eq]
  split
  · next listed => rw [List.count_eq_one_of_mem distinct listed, List.replicate_one]
  · next missing => rw [List.count_eq_zero_of_not_mem missing, List.replicate_zero]

/-- The join at a version. -/
theorem filter_valuationsOf (tables : SourceTables) (eventId : ℤ) (asset : Asset)
    (version : Version) :
    (tables.valuationsOf eventId asset).filter (fun v => decide (v.1 = version)) =
      ((tables.eventValuations.lookup (eventId, version, asset)).map
        fun row => (version, row)).toList := by
  have own : ∀ v : Version, ((tables.eventValuations.lookup (eventId, v, asset)).map
        fun row => (v, row)).filter (fun v => decide (v.1 = version)) =
      if decide (v = version) = true then
        (tables.eventValuations.lookup (eventId, v, asset)).map fun row => (v, row)
      else none := by
    intro v
    cases tables.eventValuations.lookup (eventId, v, asset) with
    | none => simp
    | some row => simp [Option.filter]
  have swap : (tables.valuationsOf eventId asset).filter (fun v => decide (v.1 = version)) =
      ((tables.versionsOf eventId asset).filter fun v => decide (v = version)).filterMap
        fun v => (tables.eventValuations.lookup (eventId, v, asset)).map fun row => (v, row) := by
    rw [SourceTables.valuationsOf, List.filter_filterMap, List.filterMap_filter]
    exact List.filterMap_congr fun v _ => own v
  rw [swap, filter_versionsOf]
  cases found : tables.eventValuations.lookup (eventId, version, asset) with
  | none =>
      have missing : version ∉ tables.versionsOf eventId asset := by
        rw [SourceTables.mem_versionsOf]
        exact Finmap.lookup_eq_none.mp found
      rw [if_neg missing]
      rfl
  | some row =>
      have listed : version ∈ tables.versionsOf eventId asset :=
        SourceTables.mem_versionsOf.mpr (Finmap.mem_of_lookup_eq_some found)
      rw [if_pos listed, List.filterMap_cons, found]
      rfl

/-! ## The rows behind the selected keys -/

section Rows

variable {lib : Library} {r : Request} {db : Db}

/-- What is read of an event's source rows. -/
def readRows (lib : Library) (r : Request) (db : Db) (e : RawEvent) : List EventValuationRow :=
  (eventValuationRows false db.sourceTables e).filter fun row => r.reads lib db row.key

/-- The source rows of an event carry its columns. -/
theorem mem_eventValuationRows {tables : SourceTables} {e : RawEvent} {row : EventValuationRow}
    (member : row ∈ eventValuationRows false tables e) :
    e.isValuable = true ∧ e.isCanonical = true ∧ row.eventId = e.id ∧
      row.blockTimestamp = e.blockTimestamp ∧ row.contractName = e.contractName ∧
      row.eventName = e.eventName ∧ e.asset = some row.asset := by
  unfold eventValuationRows at member
  cases named : e.asset with
  | none => simp [named] at member
  | some asset =>
      simp only [named] at member
      split at member
      · next passes =>
          obtain ⟨valuable, eligible⟩ := Bool.and_eq_true _ _ ▸ passes
          obtain ⟨v, _, rfl⟩ := List.mem_map.mp member
          exact ⟨valuable, ((e.eligible_false_iff).mp eligible).1, rfl, rfl, rfl, rfl, rfl⟩
      · cases member

/-- An event that is not selected has no row that is read. -/
theorem readRows_of_not_selected (plain : r.isPlain = true) (comparable : Comparable lib r db)
    {e : RawEvent} (stored : e ∈ db.rawProtocolEvents) (unselected : r.selects lib e = false) :
    readRows lib r db e = [] := by
  refine List.filter_eq_nil_iff.mpr fun row member reads => ?_
  obtain ⟨valuable, canonical, _, timestamp, contract, event, asset⟩ :=
    mem_eventValuationRows member
  simp only [Request.reads, Bool.and_eq_true] at reads
  obtain ⟨⟨names, days⟩, _⟩ := reads
  have named : r.names lib e.contractName e.eventName e.asset = true := by
    rw [asset, ← contract, ← event]
    exact names
  have bounds : r.inBounds e = true := by
    rw [comparable.wholeDays e stored valuable canonical named, ← timestamp]
    exact days
  have addresses : r.addresses lib e = true := by
    simp only [Request.isPlain, Bool.and_eq_true, Option.isNone_iff_eq_none] at plain
    simp [Request.addresses, plain]
  simp [Request.selects, valuable, canonical, named, bounds, addresses] at unselected

/-- A row is the one of an event. -/
structure IsRowOf (r : Request) (db : Db) (row : EventValuationRow) (e : RawEvent) : Prop where
  eventId : row.eventId = e.id
  blockTimestamp : row.blockTimestamp = e.blockTimestamp
  amounts : r.version.isSome = true → ∃ v, r.valuationOf db e = some v ∧
    row.amountNative = some v.amountNative ∧ row.amountUsd = v.amountUsd

/-- **A selected event has one row that is read.** -/
theorem readRows_of_selected (comparable : Comparable lib r db) {e : RawEvent}
    (stored : e ∈ db.rawProtocolEvents) (selected : r.selects lib e = true) :
    ∃ row, readRows lib r db e = [row] ∧ IsRowOf r db row e := by
  obtain ⟨isFinal, once⟩ := comparable.valued e stored selected
  obtain ⟨asset, named, valued⟩ := (Option.any_eq_true ..).mp once
  replace named : e.asset = some asset := named
  have clauses := selected
  simp only [Request.selects, Bool.and_eq_true] at clauses
  obtain ⟨⟨⟨⟨valuable, canonical⟩, names⟩, _⟩, bounds⟩ := clauses
  have days : r.inDays db (dayUtc e.blockTimestamp) = true := by
    rw [← comparable.wholeDays e stored valuable canonical names]
    exact bounds
  rw [named] at names
  have eligible : e.eligible false = true := (e.eligible_false_iff).mpr ⟨canonical, isFinal⟩
  have joined : readRows lib r db e =
      ((db.sourceTables.valuationsOf e.id asset).filter fun v =>
        r.version.all fun version => decide (v.1 = version)).map fun v =>
          { eventId := e.id
            blockTimestamp := e.blockTimestamp
            contractName := e.contractName
            eventName := e.eventName
            asset
            valuationVersion := v.1
            amountNative := some v.2.amountNative
            amountUsd := v.2.amountUsd } := by
    unfold readRows eventValuationRows
    simp only [named, valuable, eligible, Bool.and_self, if_true]
    rw [List.filter_map]
    refine congrArg (List.map _) (List.filter_congr fun v _ => ?_)
    simp only [Function.comp_apply, Request.reads, EventValuationRow.key, names, days,
      Bool.true_and]
    rfl
  rw [joined]
  cases asked : r.version with
  | none =>
      rw [asked] at valued
      obtain ⟨version, only⟩ := List.length_eq_one_iff.mp (of_decide_eq_true valued)
      have listed : version ∈ db.sourceTables.versionsOf e.id asset :=
        only ▸ List.mem_cons_self ..
      obtain ⟨v, found⟩ := Finmap.mem_iff.mp (SourceTables.mem_versionsOf.mp listed)
      have single : db.sourceTables.valuationsOf e.id asset = [(version, v)] := by
        rw [SourceTables.valuationsOf, only, List.filterMap_cons, found]
        rfl
      rw [single]
      refine ⟨_, rfl, rfl, rfl, fun absurd => ?_⟩
      rw [asked] at absurd
      cases absurd
  | some version =>
      rw [asked] at valued
      obtain ⟨v, found⟩ :=
        Finmap.mem_iff.mp (SourceTables.mem_versionsOf.mp (of_decide_eq_true valued))
      have lookup : db.eventValuations.lookup (e.id, version, asset) = some v := found
      simp only [Option.all_some]
      rw [filter_valuationsOf, found]
      refine ⟨_, rfl, rfl, rfl, fun _ => ⟨v, ?_, rfl, rfl⟩⟩
      simp [Request.valuationOf, asked, named, lookup]

/-- What is read of all events is the selected events, one by one. -/
theorem map_flatMap_eq {α β γ : Type} {events : List α} {selects : α → Bool} {rows : α → List β}
    {f : β → γ} {g : α → γ} (none : ∀ e ∈ events, selects e = false → rows e = [])
    (one : ∀ e ∈ events, selects e = true → ∃ row, rows e = [row] ∧ f row = g e) :
    (events.flatMap rows).map f = (events.filter selects).map g := by
  induction events with
  | nil => rfl
  | cons e rest inductionHypothesis =>
      have tail := inductionHypothesis
        (fun later member => none later (List.mem_cons_of_mem _ member))
        (fun later member => one later (List.mem_cons_of_mem _ member))
      rw [List.flatMap_cons, List.map_append, tail]
      cases selected : selects e with
      | false => simp [none e (List.mem_cons_self ..) selected, selected]
      | true =>
          obtain ⟨row, only, same⟩ := one e (List.mem_cons_self ..) selected
          simp [only, same, selected]

/-- A row falls into the bucket of its event. -/
theorem startOfKey_eq (lib : Library) {row : EventValuationRow} {e : RawEvent}
    (same : row.blockTimestamp = e.blockTimestamp) :
    r.startOfKey row.key = r.startOf lib "UTC" e := by
  rw [Request.startOf, if_pos rfl, ← same]
  rfl

/-- The checkpoint of a rollup that covers a range has reached the selected events. -/
theorem reached_of_covers (covers : r.rollupCoversRange db = true)
    (comparable : Comparable lib r db) {e : RawEvent} (stored : e ∈ db.rawProtocolEvents)
    (selected : r.selects lib e = true) :
    ((eventMetrics.checkpoint db).any fun seen => decide (e.id ≤ seen)) = true := by
  cases found : eventMetrics.checkpoint db with
  | none =>
      have absent : db.loadCheckpoint (.rollup .eventMetricsDaily) = none := found
      simp [Request.rollupCoversRange, absent] at covers
  | some checkpoint => exact decide_eq_true (comparable.reached checkpoint found e stored selected)

/-- **The folded rows of a bucket that are read are its selected events.** -/
theorem sum_foldedRows (plain : r.isPlain = true) (covers : r.rollupCoversRange db = true)
    (comparable : Comparable lib r db) (start : Timestamp) {A : Type} [AddCommMonoid A]
    {share : EventValuationRow → A} {g : RawEvent → A}
    (same : ∀ e ∈ db.rawProtocolEvents, r.selects lib e = true →
      ∀ row, IsRowOf r db row e → share row = g e) :
    (((eventMetrics.foldedRows false db).filter fun row =>
        r.reads lib db row.key && decide (r.startOfKey row.key = start)).map share).sum =
      ((r.bucketEvents lib db "UTC" start).map g).sum := by
  let reached : EventValuationRow → Bool := fun row =>
    (eventMetrics.checkpoint db).any fun seen => decide (row.eventId ≤ seen)
  let rows : RawEvent → List EventValuationRow := fun e =>
    (readRows lib r db e).filter fun row => decide (r.startOfKey row.key = start) && reached row
  have unsorted : ((eventMetrics.foldedRows false db).filter fun row =>
      r.reads lib db row.key && decide (r.startOfKey row.key = start)).Perm
        (db.rawProtocolEvents.flatMap rows) := by
    rw [DailyRollup.foldedRows, List.filter_filter]
    refine ((orderBy_perm _ _).filter _).trans (List.Perm.of_eq ?_)
    rw [List.filter_flatMap]
    refine List.flatMap_congr fun e _ => ?_
    simp only [rows, readRows, List.filter_filter]
    refine List.filter_congr fun row _ => ?_
    rw [Bool.and_assoc, Bool.and_comm]
    rfl
  rw [(unsorted.map share).sum_eq, Request.bucketEvents, List.filter_filter]
  refine congrArg List.sum (map_flatMap_eq (fun e stored outside => ?_)
    fun e stored inside => ?_)
  · cases selected : r.selects lib e with
    | false => simp [rows, readRows_of_not_selected plain comparable stored selected]
    | true =>
        obtain ⟨row, only, own⟩ := readRows_of_selected comparable stored selected
        have elsewhere : r.startOf lib "UTC" e ≠ start := by simpa [selected] using outside
        have other : r.startOfKey row.key ≠ start := by
          rw [startOfKey_eq lib own.blockTimestamp]
          exact elsewhere
        simp [rows, only, other]
  · obtain ⟨here, selected⟩ := Bool.and_eq_true _ _ ▸ inside
    obtain ⟨row, only, own⟩ := readRows_of_selected comparable stored selected
    refine ⟨row, ?_, same e stored selected row own⟩
    have bucket : r.startOfKey row.key = start := by
      rw [startOfKey_eq lib own.blockTimestamp]
      exact of_decide_eq_true here
    have folded : reached row = true := by
      simp only [reached, own.eventId]
      exact reached_of_covers covers comparable stored selected
    simp [rows, only, bucket, folded]

/-- **What the rollup adds up for a bucket is what its events come to.** -/
theorem served_eq (plain : r.isPlain = true) (covers : r.rollupCoversRange db = true)
    (comparable : Comparable lib r db) (start : Timestamp) {A : Type} [AddCommMonoid A]
    (column : EventMetricsSums →+ A) (share : EventValuationRow → A) {g : RawEvent → A}
    (shares : ∀ row new, column (eventMetrics.sums db.sourceTables row new) = share row)
    (same : ∀ e ∈ db.rawProtocolEvents, r.selects lib e = true →
      ∀ row, IsRowOf r db row e → share row = g e) :
    r.served lib db column start = ((r.bucketEvents lib db "UTC" start).map g).sum := by
  rw [Request.served, DailyRollup.servedColumn_of_rebuilt
    (fun key _ => comparable.upToDate key) column column id rfl (fun _ => rfl) shares, keyedSum_id]
  exact sum_foldedRows plain covers comparable start same

theorem mem_bucketEvents {tz : String} {start : Timestamp} {e : RawEvent} :
    e ∈ r.bucketEvents lib db tz start ↔
      e ∈ db.rawProtocolEvents ∧ r.selects lib e = true ∧ r.startOf lib tz e = start := by
  rw [Request.bucketEvents, List.mem_filter, List.mem_filter, decide_eq_true_iff, and_assoc]

/-- **Both ways have the same buckets.** -/
theorem starts_eq (plain : r.isPlain = true) (covers : r.rollupCoversRange db = true)
    (comparable : Comparable lib r db) :
    (db.eventMetricsDaily.keys.filter fun key => r.reads lib db key = true).image r.startOfKey =
      ((db.rawProtocolEvents.filter (r.selects lib)).map (r.startOf lib "UTC")).toFinset := by
  ext start
  simp only [Finset.mem_image, Finset.mem_filter, List.mem_toFinset, List.mem_map, List.mem_filter]
  constructor
  · rintro ⟨key, ⟨stored, reads⟩, rfl⟩
    obtain ⟨row, folded, rfl⟩ :=
      (DailyRollup.mem_keys_of_rebuilt (comparable.upToDate key)).mp stored
    obtain ⟨e, present, joined⟩ :=
      (eventMetrics.mem_sourceRows false).mp (List.mem_of_mem_filter folded)
    have read : row ∈ readRows lib r db e := List.mem_filter.mpr ⟨joined, reads⟩
    obtain ⟨_, _, _, timestamp, _⟩ := mem_eventValuationRows joined
    refine ⟨e, ⟨present, ?_⟩, (startOfKey_eq lib timestamp).symm⟩
    by_contra unselected
    rw [readRows_of_not_selected plain comparable present (Bool.eq_false_iff.mpr unselected)]
      at read
    cases read
  · rintro ⟨e, ⟨present, selected⟩, rfl⟩
    obtain ⟨row, only, own⟩ := readRows_of_selected comparable present selected
    obtain ⟨joined, reads⟩ := List.mem_filter.mp (only ▸ List.mem_cons_self .. :
      row ∈ readRows lib r db e)
    have folded : row ∈ eventMetrics.foldedRows false db := by
      refine List.mem_filter.mpr ⟨(eventMetrics.mem_sourceRows false).mpr ⟨e, present, joined⟩, ?_⟩
      have reached := reached_of_covers covers comparable present selected
      rw [← own.eventId] at reached
      exact reached
    exact ⟨row.key, ⟨(DailyRollup.mem_keys_of_rebuilt (comparable.upToDate row.key)).mpr
      ⟨row, folded, rfl⟩, reads⟩, startOfKey_eq lib own.blockTimestamp⟩

/-! ## The columns -/

/-- The native amount of a selected event. -/
def nativeOf (r : Request) (db : Db) (e : RawEvent) : Option Numeric :=
  (r.valuationOf db e).map fun v => v.amountNative

/-- Its USD amount. -/
def usdOf (r : Request) (db : Db) (e : RawEvent) : Option Numeric :=
  (r.valuationOf db e).bind ValuationRow.amountUsd

section Columns

variable (plain : r.isPlain = true) (covers : r.rollupCoversRange db = true)
  (comparable : Comparable lib r db) (start : Timestamp)

include plain covers comparable

/-- The rollup counts the events of a bucket. -/
theorem served_eventCount : r.served lib db EventMetricsSums.eventCount start =
    ((r.bucketEvents lib db "UTC" start).length : ℤ) := by
  have counted := served_eq plain covers comparable start
    ⟨⟨EventMetricsSums.eventCount, rfl⟩, fun _ _ => rfl⟩ (fun _ => 1) (g := fun _ => 1)
    (fun _ _ => rfl) fun _ _ _ _ _ => rfl
  refine counted.trans ?_
  simp

variable (versioned : r.version.isSome = true)

include versioned

/-- It adds up their native amounts. -/
theorem served_sumAmountNative : r.served lib db EventMetricsSums.sumAmountNative start =
    ((r.bucketEvents lib db "UTC" start).filterMap (nativeOf r db)).sum := by
  rw [sum_filterMap]
  refine served_eq plain covers comparable start
    ⟨⟨EventMetricsSums.sumAmountNative, rfl⟩, fun _ _ => rfl⟩
    (fun row => row.amountNative.getD 0) (fun _ _ => rfl)
    fun e _ _ row own => ?_
  obtain ⟨v, valued, native, _⟩ := own.amounts versioned
  rw [nativeOf, valued, native]
  rfl

/-- And their USD amounts. -/
theorem served_sumAmountUsd : r.served lib db EventMetricsSums.sumAmountUsd start =
    ((r.bucketEvents lib db "UTC" start).filterMap (usdOf r db)).sum := by
  rw [sum_filterMap]
  refine served_eq plain covers comparable start
    ⟨⟨EventMetricsSums.sumAmountUsd, rfl⟩, fun _ _ => rfl⟩
    (fun row => row.amountUsd.getD 0) (fun _ _ => rfl)
    fun e _ _ row own => ?_
  obtain ⟨v, valued, _, usd⟩ := own.amounts versioned
  rw [usdOf, valued, usd]
  rfl

/-- And counts those that have one. -/
theorem served_usdRowsPriced : r.served lib db EventMetricsSums.usdRowsPriced start =
    (((r.bucketEvents lib db "UTC" start).filterMap (usdOf r db)).length : ℤ) := by
  have ones : ((((r.bucketEvents lib db "UTC" start).filterMap (usdOf r db)).length : ℕ) : ℤ) =
      ((r.bucketEvents lib db "UTC" start).filterMap fun e =>
        (usdOf r db e).map fun _ => (1 : ℤ)).sum := by
    rw [← List.map_filterMap]
    simp
  rw [ones, sum_filterMap]
  refine served_eq plain covers comparable start
    ⟨⟨EventMetricsSums.usdRowsPriced, rfl⟩, fun _ _ => rfl⟩
    (fun row => if row.amountUsd.isSome then 1 else 0) (fun _ _ => rfl)
    fun e _ _ row own => ?_
  obtain ⟨v, valued, _, usd⟩ := own.amounts versioned
  rw [usdOf, valued, usd]
  cases found : v.amountUsd with
  | none => simp [found]
  | some amount => simp [found]

end Columns

/-! ## Agreement -/

/-- The metric of a bucket that has an event. -/
theorem rollupValue_eq (plain : r.isPlain = true) (covers : r.rollupCoversRange db = true)
    (comparable : Comparable lib r db) (versioned : r.metric ≠ .count → r.version.isSome = true)
    {e : RawEvent} {start : Timestamp} (member : e ∈ r.bucketEvents lib db "UTC" start) :
    r.rollupValue lib db start =
      .ok (r.rawValue lib ((r.bucketEvents lib db "UTC" start).map (r.valuationOf db))) := by
  have natives : (((r.bucketEvents lib db "UTC" start).map (r.valuationOf db)).filterMap id).map
      (fun v => v.amountNative) =
        (r.bucketEvents lib db "UTC" start).filterMap (nativeOf r db) := by
    rw [List.filterMap_map, List.map_filterMap]
    rfl
  have usds : ((r.bucketEvents lib db "UTC" start).map (r.valuationOf db)).filterMap
      (fun v => v.bind ValuationRow.amountUsd) =
        (r.bucketEvents lib db "UTC" start).filterMap (usdOf r db) := by
    rw [List.filterMap_map]
    rfl
  obtain ⟨stored, selected, here⟩ := mem_bucketEvents.mp member
  have valued : r.version.isSome = true →
      (r.bucketEvents lib db "UTC" start).filterMap (nativeOf r db) ≠ [] := by
    intro asked empty
    obtain ⟨row, _, own⟩ := readRows_of_selected comparable stored selected
    obtain ⟨v, found, _⟩ := own.amounts asked
    have absent := List.filterMap_eq_nil_iff.mp empty e member
    rw [nativeOf, found] at absent
    cases absent
  have priced : r.metric = .sumAmountUsd ∨ r.metric = .avgAmountUsd →
      (r.bucketEvents lib db "UTC" start).filterMap (usdOf r db) ≠ [] := by
    intro usd empty
    obtain ⟨other, present, chosen, bucket, hasPrice⟩ := comparable.priced usd e stored selected
    have inside : other ∈ r.bucketEvents lib db "UTC" start :=
      mem_bucketEvents.mpr ⟨present, chosen, bucket.trans here⟩
    rw [← usdOf, List.filterMap_eq_nil_iff.mp empty other inside] at hasPrice
    cases hasPrice
  unfold Request.rollupValue Request.rawValue
  rw [natives, usds]
  cases metric : r.metric with
  | count => rfl
  | sumAmountNative =>
      have asked := versioned (by rw [metric]; decide)
      simp only [served_sumAmountNative plain covers comparable start asked, sumOf,
        if_neg (valued asked)]
  | sumAmountUsd =>
      have asked := versioned (by rw [metric]; decide)
      simp only [served_sumAmountUsd plain covers comparable start asked, sumOf,
        if_neg (priced (Or.inl metric))]
  | avgAmountUsd =>
      have asked := versioned (by rw [metric]; decide)
      have some_ := priced (Or.inr metric)
      have positive :
          (((r.bucketEvents lib db "UTC" start).filterMap (usdOf r db)).length : ℤ) ≠ 0 :=
        Int.natCast_ne_zero.mpr (mt List.length_eq_zero_iff.mp some_)
      simp only [served_sumAmountUsd plain covers comparable start asked,
        served_usdRowsPriced plain covers comparable start asked, if_neg positive, if_neg some_]

end Rows

/-- A metric of amounts is read at a version. -/
theorem isSome_version_of_readRequest {lib : Library} {defaultVersion : Version}
    {q : AggregationsQuery} {r : Request} (read : readRequest lib defaultVersion q = .ok r)
    (amounts : r.metric ≠ .count) : r.version.isSome = true := by
  simp only [readRequest, bind_eq_ok, pure_eq_ok] at read
  obtain ⟨bucket, _, metric, _, fromBound, _, toBound, _, rfl⟩ := read
  rw [if_neg amounts]
  rfl

/-- The zone of a plain request. -/
theorem tz_of_isPlain {r : Request} (plain : r.isPlain = true) : r.query.tz.getD "UTC" = "UTC" :=
  of_decide_eq_true (Bool.and_eq_true _ _ ▸ plain).2

/-- Letters as they are, and no date. -/
def plainLibrary : Library :=
  { EventPages.plainCasing with
    parseFromStr := fun _ => none
    debug := id
    truncate := fun _ _ timestamp => timestamp
    quotientText := fun _ _ => "" }

/-- A request by day. -/
def byDay (metric : String) (fromText toText : Option String) : AggregationsQuery where
  contract := none
  eventName := none
  bucket := "day"
  fromText
  toText
  address := none
  fromAddress := none
  toAddress := none
  asset := none
  metric
  valuationVersion := none
  tz := none

/-- Two tickets, the second in another block of the same day. -/
def twoBlocks : NumberedRows :=
  [(1, Pipeline.ticketRow 1 "0xg"), (2, { Pipeline.ticketRow 2 "0xg" with blockNumber := 2 })]

/-- They are finalized, valued and rolled up. -/
def twoBlocksSchedule : List PipelineAction :=
  [.index twoBlocks, .finalize 0 1000 1000,
    .value [Pipeline.ticketValuation 1 "v1", Pipeline.ticketValuation 2 "v1"], .rollEventMetrics 2]

/-- After a schedule the rollup is read, and answers otherwise than the events. -/
def disagrees (schedule : List PipelineAction) (q : AggregationsQuery) : Bool :=
  match execute Pipeline.step (Pipeline.start ∅) schedule, readRequest plainLibrary "v1" q with
  | some db, .ok r => r.isPlain && r.rollupCoversRange db &&
      !decide (r.aggregateFromRollup plainLibrary db =
        .ok (r.aggregateFromRawEvents plainLibrary db (r.query.tz.getD "UTC")))
  | _, _ => false

/-- Two tickets of one block are finalized; then the steps. -/
def afterTickets (steps : List PipelineAction) : List PipelineAction :=
  .index [(1, Pipeline.ticketRow 1 "0xg"), (2, Pipeline.ticketRow 2 "0xg")] ::
    .finalize 0 1000 1000 :: steps

/-- Both are valued. -/
def bothValued : PipelineAction :=
  .value [Pipeline.ticketValuation 1 "v1", Pipeline.ticketValuation 2 "v1"]

/-- A third ticket of the block is indexed and valued, but not final. -/
def tentativeSchedule : List PipelineAction :=
  afterTickets [bothValued, .rollEventMetrics 2, .index [(3, Pipeline.ticketRow 3 "0xg")],
    .value [Pipeline.ticketValuation 3 "v1"]]

/-- The valuations have no USD amount. -/
def unpricedSchedule : List PipelineAction :=
  afterTickets [.value [{ Pipeline.ticketValuation 1 "v1" with amountUsd := none },
    { Pipeline.ticketValuation 2 "v1" with amountUsd := none }], .rollEventMetrics 2]

/-- The first ticket is valued after the second one has been rolled up. -/
def behindSchedule : List PipelineAction :=
  afterTickets [.value [Pipeline.ticketValuation 2 "v1"], .rollEventMetrics 2,
    .value [Pipeline.ticketValuation 1 "v1"]]

/-- Every ticket is valued under two versions. -/
def twoVersionsSchedule : List PipelineAction :=
  afterTickets [bothValued,
    .value [Pipeline.ticketValuation 1 "v2", Pipeline.ticketValuation 2 "v2"], .rollEventMetrics 4]

/-- **A rollup that covers a range is not enough otherwise either**: it may have gone past an event
that is not final or not valued, may be at an earlier event of the block, may have missed a
valuation, count an event once for each version, or have no amount to divide. -/
theorem covers_is_not_enough :
    disagrees tentativeSchedule (byDay "count" none (some "1")) = true ∧
      disagrees (afterTickets [.value [Pipeline.ticketValuation 2 "v1"], .rollEventMetrics 2])
        (byDay "count" none (some "1")) = true ∧
      disagrees (afterTickets [bothValued, .rollEventMetrics 1])
        (byDay "count" none (some "1")) = true ∧
      disagrees behindSchedule (byDay "count" none (some "1")) = true ∧
      disagrees twoVersionsSchedule (byDay "count" none (some "1")) = true ∧
      disagrees unpricedSchedule (byDay "avg_amount_usd" none (some "1")) = true := by
  decide +kernel

end ProtocolExplorer.Api.Aggregations
