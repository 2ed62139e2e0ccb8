import ProtocolExplorer.Api.Reports
import ProtocolExplorer.Lib.AnswerCache
import ProtocolExplorer.Lib.Failures
import ProtocolExplorer.Lib.LatestRow

/-!
# The cuts in force at a position

`fee_share_raw_at_block` and `reward_cut_raw_at_block` of the rollups load the updates of an
orchestrator once, in ascending order, and scan them up to the position of an event.  The reports
select the update with a lateral join, in descending order with `LIMIT 1`.

* `cachedPoints_loaded` — what a run of queries has cached was loaded;
* `selectPoint_eq` — the loop over the points is a scan of the rows;
* `cuts_agree` — **after any run of queries both functions return the value of the latest update,
  which is the one of the lateral join**.
-/

set_option autoImplicit false

namespace ProtocolExplorer.Api.Cuts

open ProtocolExplorer.Lib
open ProtocolExplorer.Store

/-! ## The rollups -/

/-- `FeeSharePoint`, `RewardCutPoint`. -/
structure CutPoint where
  blockNumber : ℤ
  logIndex : ℕ
  raw : ℚ
  deriving DecidableEq

/-- What an update is asked for, and the context of an error. -/
structure CutKind where
  field : Decoded → Option ℕ
  context : String

def feeShare : CutKind := ⟨Decoded.feeShare, "parsing feeShare raw"⟩

def rewardCut : CutKind := ⟨Decoded.rewardCut, "parsing rewardCut raw"⟩

/-- `BigDecimal::from_str`, of the text of an unsigned integer. -/
def bigDecimalFromStr (text : String) : Option ℚ := text.toNat?.map fun n => (n : ℚ)

/-- `COALESCE(raw_event -> 'decoded' ->> …, '0')`. -/
def rawText (field : Decoded → Option ℕ) (e : RawEvent) : String :=
  ((field e.decoded).map toString).getD "0"

/-- The `WHERE` clause of the updates of an orchestrator. -/
def isUpdateOf (orchestrator : Address) (e : RawEvent) : Bool :=
  e.isCanonical && decide (e.contractName = .BondingManager) &&
    decide (e.eventName = .TranscoderUpdate) && decide (e.toAddress = some orchestrator)

section Rollups

variable (kind : CutKind)

def pointOf (e : RawEvent) : Except String CutPoint :=
  match bigDecimalFromStr (rawText kind.field e) with
  | some raw => .ok ⟨e.blockNumber, e.logIndex, raw⟩
  | none => .error kind.context

/-- The points of an orchestrator, `ORDER BY block_number ASC, log_index ASC`. -/
def loadPoints (order : ScanOrder RawEvent) (events : List RawEvent) (orchestrator : Address) :
    Except String (List CutPoint) :=
  (order.orderBy RawEvent.position (events.filter (isUpdateOf orchestrator))).mapM (pointOf kind)

/-- `compare_event_position`. -/
def compareEventPosition (leftBlock : ℤ) (leftLogIndex : ℕ) (rightBlock : ℤ)
    (rightLogIndex : ℕ) : Ordering :=
  (compare leftBlock rightBlock).then (compare leftLogIndex rightLogIndex)

/-- The loop over the points, with what is selected so far. -/
def selectPoint (blockNumber : ℤ) (logIndex : ℕ) : ℚ → List CutPoint → ℚ
  | selected, [] => selected
  | selected, point :: rest =>
      if compareEventPosition point.blockNumber point.logIndex blockNumber logIndex = .gt then
        selected
      else selectPoint blockNumber logIndex point.raw rest

/-- `fee_share_cache`, `reward_cut_cache`. -/
abbrev PointCache := Table Address (List CutPoint)

/-- The orchestrator and the position of an event. -/
structure CutQuery where
  orchestrator : Address
  blockNumber : ℤ
  logIndex : ℕ
  deriving DecidableEq

def CutQuery.position (q : CutQuery) : Lex (ℤ × ℕ) := toLex (q.blockNumber, q.logIndex)

/-- The body of `fee_share_raw_at_block` and of `reward_cut_raw_at_block`. -/
def rawAtBlock (order : ScanOrder RawEvent) (events : List RawEvent) (cache : PointCache)
    (q : CutQuery) : PointCache × Except String ℚ :=
  let loaded := cachedCall (loadPoints kind order events) q.orchestrator cache
  (loaded.1, loaded.2.map (selectPoint q.blockNumber q.logIndex 0))

end Rollups

/-- `fee_share_raw_at_block`. -/
def feeShareRawAtBlock := rawAtBlock feeShare

/-- `reward_cut_raw_at_block`. -/
def rewardCutRawAtBlock := rawAtBlock rewardCut

/-- The cache after some queries, each of which comes across the rows in an order of its own. -/
def cacheAfter (kind : CutKind) (events : List RawEvent)
    (queries : List (ScanOrder RawEvent × CutQuery)) : PointCache :=
  queries.foldl (fun cache asked => (rawAtBlock kind asked.1 events cache asked.2).1) ∅

/-! ## The reports -/

/-- The lateral join of `fetch_payout_like_rows`, `fetch_reward_rows` and
`fetch_ticket_history`. -/
def lateralUpdate (order : ScanOrder RawEvent) (events : List RawEvent) (q : CutQuery) :
    Option RawEvent :=
  (order.orderBy (fun tu => OrderDual.toDual tu.position) (events.filter fun tu =>
    isUpdateOf q.orchestrator tu && (decide (tu.blockNumber < q.blockNumber) ||
      decide (tu.blockNumber = q.blockNumber) && decide (tu.logIndex ≤ q.logIndex)))).head?

/-- The share of a report row; a text that is no number is an internal error. -/
def lateralRaw (kind : CutKind) (order : ScanOrder RawEvent) (events : List RawEvent)
    (q : CutQuery) : Option ℚ :=
  bigDecimalFromStr (((lateralUpdate order events q).map (rawText kind.field)).getD "0")

/-! ## The value of an update -/

/-- The value of an update, `0` when there is none. -/
def valueOf (field : Decoded → Option ℕ) (found : Option RawEvent) : ℚ :=
  (((found.bind fun e => field e.decoded).getD 0 : ℕ) : ℚ)

theorem bigDecimalFromStr_toString (n : ℕ) : bigDecimalFromStr (toString n) = some (n : ℚ) := by
  simp [bigDecimalFromStr]

theorem bigDecimalFromStr_rawText (field : Decoded → Option ℕ) (e : RawEvent) :
    bigDecimalFromStr (rawText field e) = some (valueOf field (some e)) := by
  rw [rawText, valueOf, Option.bind_some]
  cases field e.decoded with
  | none => exact bigDecimalFromStr_toString 0
  | some n => exact bigDecimalFromStr_toString n

/-- The point of an update. -/
def point (kind : CutKind) (e : RawEvent) : CutPoint :=
  ⟨e.blockNumber, e.logIndex, valueOf kind.field (some e)⟩

theorem loadPoints_eq (kind : CutKind) (order : ScanOrder RawEvent) (events : List RawEvent)
    (orchestrator : Address) : loadPoints kind order events orchestrator =
      .ok ((order.orderBy RawEvent.position
        (events.filter (isUpdateOf orchestrator))).map (point kind)) := by
  refine mapM_ok fun e _ => ?_
  rw [pointOf, bigDecimalFromStr_rawText]
  rfl

/-! ## The scan of the points -/

/-- A point is later than a position if it is after it in the order of the chain. -/
theorem compareEventPosition_eq_gt {leftBlock rightBlock : ℤ} {leftLogIndex rightLogIndex : ℕ} :
    compareEventPosition leftBlock leftLogIndex rightBlock rightLogIndex = .gt ↔
      toLex (rightBlock, rightLogIndex) < toLex (leftBlock, leftLogIndex) := by
  rw [compareEventPosition, Ordering.then_eq_gt, compare_gt_iff_gt, compare_eq_iff_eq,
    compare_gt_iff_gt, Prod.Lex.toLex_lt_toLex]
  exact or_congr_right (and_congr_left fun _ => eq_comm)

/-- The loop over the points is a scan of the rows. -/
theorem selectPoint_eq (kind : CutKind) (q : CutQuery) (rows : List RawEvent)
    (selected : Option RawEvent) :
    selectPoint q.blockNumber q.logIndex (valueOf kind.field selected) (rows.map (point kind)) =
      valueOf kind.field (scanRows RawEvent.position q.position selected rows) := by
  induction rows generalizing selected with
  | nil => rfl
  | cons e rest inductionHypothesis =>
      have later : compareEventPosition (point kind e).blockNumber (point kind e).logIndex
          q.blockNumber q.logIndex = .gt ↔ q.position < e.position := compareEventPosition_eq_gt
      rw [List.map_cons, selectPoint, scanRows]
      simp only [later]
      split_ifs with after
      · rfl
      · exact inductionHypothesis (some e)

/-! ## The cache -/

section Cache

variable {kind : CutKind} {events : List RawEvent}

/-- The points of an orchestrator, in some order of the rows. -/
def Loaded (kind : CutKind) (events : List RawEvent) (orchestrator : Address)
    (points : List CutPoint) : Prop :=
  ∃ order, loadPoints kind order events orchestrator = .ok points

/-- A query caches what it has loaded. -/
theorem rawAtBlock_loaded (order : ScanOrder RawEvent) {cache : PointCache} (q : CutQuery)
    (cached : ∀ orchestrator points, cache.lookup orchestrator = some points →
      Loaded kind events orchestrator points) :
    ∀ orchestrator points, (rawAtBlock kind order events cache q).1.lookup orchestrator =
      some points → Loaded kind events orchestrator points :=
  cachedCall_all rfl cached fun _ served => ⟨order, served⟩

/-- What a run of queries has cached was loaded. -/
theorem cachedPoints_loaded (queries : List (ScanOrder RawEvent × CutQuery)) :
    ∀ orchestrator points, (cacheAfter kind events queries).lookup orchestrator = some points →
      Loaded kind events orchestrator points := by
  induction queries using List.reverseRecOn with
  | nil =>
      intro orchestrator points found
      rw [cacheAfter, List.foldl_nil, Finmap.lookup_empty] at found
      cases found
  | append_singleton before asked inductionHypothesis =>
      rw [cacheAfter, List.foldl_append, List.foldl_cons, List.foldl_nil]
      exact rawAtBlock_loaded asked.1 asked.2 inductionHypothesis

/-- A query answers with the last row of a scan. -/
theorem rawAtBlock_snd (order : ScanOrder RawEvent) {cache : PointCache} (q : CutQuery)
    (cached : ∀ orchestrator points, cache.lookup orchestrator = some points →
      Loaded kind events orchestrator points) :
    ∃ order' : ScanOrder RawEvent, (rawAtBlock kind order events cache q).2 = .ok (valueOf kind.field
      (scanRows RawEvent.position q.position none (order'.orderBy RawEvent.position
        (events.filter (isUpdateOf q.orchestrator))))) := by
  have answered : ∃ points, (cachedCall (loadPoints kind order events) q.orchestrator cache).2 =
      .ok points ∧ Loaded kind events q.orchestrator points := by
    unfold cachedCall
    cases found : cache.lookup q.orchestrator with
    | some points => exact ⟨points, rfl, cached _ points found⟩
    | none =>
        rw [loadPoints_eq]
        exact ⟨_, rfl, order, loadPoints_eq kind order events q.orchestrator⟩
  obtain ⟨points, own, order', loaded⟩ := answered
  rw [loadPoints_eq] at loaded
  cases loaded
  refine ⟨order', ?_⟩
  rw [rawAtBlock, own, ← selectPoint_eq]
  rfl

end Cache

/-! ## The agreement -/

/-- A canonical `TranscoderUpdate`. -/
def isUpdate (e : RawEvent) : Bool :=
  e.isCanonical && decide (e.contractName = .BondingManager) &&
    decide (e.eventName = .TranscoderUpdate)

/-- No two updates are at one position. -/
def DistinctPositions (events : List RawEvent) : Prop :=
  ((events.filter isUpdate).map RawEvent.position).Nodup

section Agreement

variable {events : List RawEvent}

theorem filter_isUpdateOf (orchestrator : Address) (events : List RawEvent) :
    events.filter (isUpdateOf orchestrator) = (events.filter isUpdate).filter fun e =>
      decide (e.toAddress = some orchestrator) := by
  rw [List.filter_filter]
  refine List.filter_congr fun e _ => ?_
  rw [isUpdateOf, isUpdate, Bool.and_comm]

theorem DistinctPositions.of (distinct : DistinctPositions events) (orchestrator : Address) :
    ((events.filter (isUpdateOf orchestrator)).map RawEvent.position).Nodup := by
  rw [filter_isUpdateOf]
  exact distinct.sublist (List.filter_sublist.map _)

/-- The lateral join is the first of the descending updates. -/
theorem lateralUpdate_eq (order : ScanOrder RawEvent) (events : List RawEvent) (q : CutQuery) :
    lateralUpdate order events q = firstDescending order RawEvent.position
      (events.filter (isUpdateOf q.orchestrator)) q.position := by
  rw [lateralUpdate, firstDescending, List.filter_filter]
  congr 2
  refine List.filter_congr fun tu _ => ?_
  rw [Bool.and_comm]
  congr 1
  rw [← Bool.decide_and, ← Bool.decide_or]
  refine decide_eq_decide.mpr ?_
  rw [RawEvent.position, CutQuery.position, Prod.Lex.toLex_le_toLex]

theorem lateralRaw_eq (kind : CutKind) (order : ScanOrder RawEvent) (events : List RawEvent)
    (q : CutQuery) :
    lateralRaw kind order events q = some (valueOf kind.field (lateralUpdate order events q)) := by
  rw [lateralRaw]
  cases lateralUpdate order events q with
  | none => exact bigDecimalFromStr_toString 0
  | some e => exact bigDecimalFromStr_rawText kind.field e

/-- After any run of queries, a function returns the value of the latest update. -/
theorem rawAtBlock_latest (distinct : DistinctPositions events) (kind : CutKind)
    (queries : List (ScanOrder RawEvent × CutQuery)) (order : ScanOrder RawEvent) (q : CutQuery)
    {found : Option RawEvent} (latest : Latest RawEvent.position
      (events.filter (isUpdateOf q.orchestrator)) q.position found) :
    (rawAtBlock kind order events (cacheAfter kind events queries) q).2 =
      .ok (valueOf kind.field found) := by
  obtain ⟨order', answered⟩ := rawAtBlock_snd order q (cachedPoints_loaded queries)
  rw [answered, latest_unique (distinct.of q.orchestrator)
    (scanRows_latest order' RawEvent.position _ q.position) latest]

/-- `rawPercentAt` is the value of the last row of a scan. -/
theorem rawPercentAt_eq (field : Decoded → Option ℕ) (tables : SourceTables) (q : CutQuery) :
    (Rollups.rawPercentAt field tables q.orchestrator q.position : ℚ) =
      valueOf field (scanRows RawEvent.position q.position none (orderBy RawEvent.position
        (tables.rawProtocolEvents.filter (isUpdateOf q.orchestrator)))) := by
  rw [scanRows_eq, Option.or_none]
  rfl

/-- The update that a report row is joined with is the one of the lateral join. -/
theorem latestUpdate_eq_lateralUpdate (distinct : DistinctPositions events)
    (order : ScanOrder RawEvent) {e : RawEvent} {orchestrator : Address}
    (recipient : e.toAddress = some orchestrator) : latestUpdate events e =
      lateralUpdate order events ⟨orchestrator, e.blockNumber, e.logIndex⟩ := by
  have selected : (events.filter fun tu => tu.isCanonical &&
      isUpdateFor tu.toPreparedRow e.toPreparedRow) =
        (events.filter (isUpdateOf orchestrator)).filter fun tu =>
          decide (tu.position ≤ e.position) := by
    rw [List.filter_filter]
    refine List.filter_congr fun tu _ => ?_
    rw [Bool.eq_iff_iff]
    simp only [isUpdateFor, isUpdateOf, recipient, RawEvent.position, Prod.Lex.toLex_le_toLex,
      Bool.and_eq_true, Bool.or_eq_true, decide_eq_true_eq, Option.isSome_some]
    tauto
  rw [lateralUpdate_eq, latestUpdate, selected, ← filter_orderBy]
  refine latest_unique (distinct.of orchestrator) ?_ (firstDescending_latest order _ _ _)
  exact (latest_getLast? (orderBy_pairwise _ _)).of_perm (orderBy_perm _ _)

/-- **The cuts agree.**  After any run of queries both functions return the value of the latest
update at or before the position, `0` when there is none; the lateral join selects that update,
and the reports read its value. -/
theorem cuts_agree (events : List RawEvent) (distinct : DistinctPositions events)
    (feeQueries cutQueries : List (ScanOrder RawEvent × CutQuery))
    (feeOrder cutOrder lateralOrder : ScanOrder RawEvent) (q : CutQuery) :
    ∃ found,
      Latest RawEvent.position (events.filter (isUpdateOf q.orchestrator)) q.position found ∧
      lateralUpdate lateralOrder events q = found ∧
      (feeShareRawAtBlock feeOrder events (cacheAfter feeShare events feeQueries) q).2 =
        .ok (valueOf Decoded.feeShare found) ∧
      (rewardCutRawAtBlock cutOrder events (cacheAfter rewardCut events cutQueries) q).2 =
        .ok (valueOf Decoded.rewardCut found) ∧
      lateralRaw feeShare lateralOrder events q = some (valueOf Decoded.feeShare found) ∧
      lateralRaw rewardCut lateralOrder events q = some (valueOf Decoded.rewardCut found) := by
  have latest := firstDescending_latest lateralOrder RawEvent.position
    (events.filter (isUpdateOf q.orchestrator)) q.position
  rw [← lateralUpdate_eq] at latest
  exact ⟨lateralUpdate lateralOrder events q, latest, rfl,
    rawAtBlock_latest distinct feeShare feeQueries feeOrder q latest,
    rawAtBlock_latest distinct rewardCut cutQueries cutOrder q latest,
    lateralRaw_eq feeShare lateralOrder events q, lateralRaw_eq rewardCut lateralOrder events q⟩

end Agreement

/-! ### Two updates in a block -/

/-- An update of an orchestrator in block 5. -/
def updateAt (logIndex rewardCut feeShare : ℕ) : RawEvent where
  txHash := "0xt"
  logIndex := logIndex
  blockNumber := 5
  blockHash := "0xb"
  blockTimestamp := 0
  contractName := .BondingManager
  eventName := .TranscoderUpdate
  asset := none
  amountNormalized := none
  isValuable := false
  fromAddress := none
  toAddress := some "0xo"
  decoded := .transcoderUpdate rewardCut feeShare
  amount_of_asset := fun absurd => absurd
  id := logIndex
  finality := .finalized
  isCanonical := true
  finalizedAt := none

/-- The rows as they are stored. -/
def asStored : ScanOrder RawEvent := ⟨id, List.Perm.refl⟩

/-- Between the two updates the first one is in force. -/
theorem cuts_agree_betweenUpdates : ∃ found,
    Latest RawEvent.position
      ([updateAt 3 20 80, updateAt 1 10 90].filter (isUpdateOf "0xo")) (toLex (5, 2)) found ∧
    lateralUpdate asStored [updateAt 3 20 80, updateAt 1 10 90] ⟨"0xo", 5, 2⟩ = found ∧
    (feeShareRawAtBlock asStored [updateAt 3 20 80, updateAt 1 10 90]
      (cacheAfter feeShare [updateAt 3 20 80, updateAt 1 10 90]
        [(asStored, ⟨"0xo", 5, 3⟩)]) ⟨"0xo", 5, 2⟩).2 = .ok (valueOf Decoded.feeShare found) ∧
    (rewardCutRawAtBlock asStored [updateAt 3 20 80, updateAt 1 10 90]
      (cacheAfter rewardCut [updateAt 3 20 80, updateAt 1 10 90] []) ⟨"0xo", 5, 2⟩).2 =
        .ok (valueOf Decoded.rewardCut found) ∧
    lateralRaw feeShare asStored [updateAt 3 20 80, updateAt 1 10 90] ⟨"0xo", 5, 2⟩ =
      some (valueOf Decoded.feeShare found) ∧
    lateralRaw rewardCut asStored [updateAt 3 20 80, updateAt 1 10 90] ⟨"0xo", 5, 2⟩ =
      some (valueOf Decoded.rewardCut found) :=
  cuts_agree [updateAt 3 20 80, updateAt 1 10 90] (by unfold DistinctPositions; decide +kernel)
    [(asStored, ⟨"0xo", 5, 3⟩)] [] asStored asStored asStored ⟨"0xo", 5, 2⟩

end ProtocolExplorer.Api.Cuts
