import ProtocolExplorer.Api.Payouts
import ProtocolExplorer.Indexer.InOrder

/-!
# CSV reports

A report lists the finalized and priced tickets or rewards of some days, with the share in force at
each.  The header `X-Backfill-Complete` is true once the contract has an event after the last day,
whatever its finality, and says nothing of the valuations or of the other contract.

* `settled_step` — once every event of a report is valued, and finalized if it is priced, no step
  changes the report;
* `settled_of_complete` — the header shows that every event of the report is stored;
* `completeReport_stays` — **a complete report of valued and finalized events stays as it is in every
  later state**;
* `tentative_changes` — a complete report whose ticket is still tentative.
-/

set_option autoImplicit false

namespace ProtocolExplorer.Api

open ProtocolExplorer.Lib
open ProtocolExplorer.Store
open ProtocolExplorer.Indexer
open ProtocolExplorer.Finality
open ProtocolExplorer.Valuator (insertValuations)

/-! ## Requests -/

inductive ReportKind where
  | payouts
  | gatewayPayouts
  | rewards
  deriving DecidableEq

namespace ReportKind

def eventName : ReportKind → EventName
  | payouts | gatewayPayouts => .WinningTicketRedeemed
  | rewards => .Reward

/-- The contract whose events the header looks at. -/
def contract : ReportKind → ContractKind
  | payouts | gatewayPayouts => .TicketBroker
  | rewards => .BondingManager

def asset : ReportKind → Asset
  | payouts | gatewayPayouts => .ETH
  | rewards => .LPT

/-- The member of a `TranscoderUpdate` that a report reads. -/
def share : ReportKind → Decoded → Option ℕ
  | payouts | gatewayPayouts => Decoded.feeShare
  | rewards => Decoded.rewardCut

end ReportKind

structure ReportRequest where
  kind : ReportKind
  /-- The orchestrator, or the gateway of gateway payouts. -/
  address : Address
  startDay : ℤ
  endDay : ℤ
  valuationVersion : Version

namespace ReportRequest

variable (request : ReportRequest)

/-- The event names, addresses and days of a report. -/
def selects (row : PreparedRow) : Bool :=
  decide (row.eventName = request.kind.eventName) &&
    decide (startOfDay request.startDay ≤ row.blockTimestamp) &&
      decide (row.blockTimestamp < startOfDay (request.endDay + 1)) &&
        match request.kind with
        | .gatewayPayouts => decide (row.fromAddress = some request.address)
        | .payouts | .rewards => decide (row.toAddress = some request.address)

end ReportRequest

/-- The updates that the lateral join looks at: those of the recipient, at or before the event. -/
def isUpdateFor (tu e : PreparedRow) : Bool :=
  decide (tu.contractName = .BondingManager) && decide (tu.eventName = .TranscoderUpdate) &&
    e.toAddress.isSome && decide (tu.toAddress = e.toAddress) &&
      (decide (tu.blockNumber < e.blockNumber) ||
        decide (tu.blockNumber = e.blockNumber) && decide (tu.logIndex ≤ e.logIndex))

/-- The lateral join: `ORDER BY block_number DESC, log_index DESC LIMIT 1`. -/
def latestUpdate (events : List RawEvent) (e : RawEvent) : Option RawEvent :=
  (orderBy RawEvent.position (events.filter fun tu =>
    tu.isCanonical && isUpdateFor tu.toPreparedRow e.toPreparedRow)).getLast?

/-- `COALESCE(tu.raw_event -> 'decoded' ->> …, '0')`. -/
def shareRaw (kind : ReportKind) (events : List RawEvent) (e : RawEvent) : ℕ :=
  ((latestUpdate events e).bind fun tu => kind.share tu.decoded).getD 0

/-! ## Rows -/

/-- An event of a report, with its priced valuation and the share in force. -/
structure ReportRow where
  event : PreparedRow
  valuation : ValuationRow
  amountUsd : Numeric
  shareRaw : ℕ

namespace ReportRequest

variable (request : ReportRequest) (db : Db)

/-- The joined row of an event. -/
def rowOf (e : RawEvent) : Option ReportRow :=
  if request.selects e.toPreparedRow && e.isCanonical && decide (e.finality = .finalized) then
    (db.eventValuations.lookup (e.id, request.valuationVersion, request.kind.asset)).bind fun v =>
      v.amountUsd.map fun usd =>
        ⟨e.toPreparedRow, v, usd, shareRaw request.kind db.rawProtocolEvents e⟩
  else none

/-- The rows of a report, `ORDER BY e.block_number ASC, e.log_index ASC`. -/
def rows : List ReportRow :=
  (orderBy RawEvent.position db.rawProtocolEvents).filterMap (request.rowOf db)

/-- `backfill_complete_for_contract`: has the contract an event after the last day? -/
def backfillComplete : Bool :=
  match ((db.rawProtocolEvents.filter fun e =>
      decide (e.contractName = request.kind.contract) && e.isCanonical).map
        fun e => e.blockTimestamp).max? with
  | some latest => decide (startOfDay (request.endDay + 1) ≤ latest)
  | none => false

end ReportRequest

/-! ## Lines -/

/-- `PERCENT_DENOMINATOR`. -/
def percentDenominator : ℚ := 1000000

/-- `raw_percent_to_percent`. -/
def rawPercentToPercent (raw : ℚ) : ℚ := raw / 10000

/-- A line of a payouts report. -/
structure PayoutCsvLine where
  blockTimestamp : Timestamp
  txHash : TxHash
  amountNative : ℚ
  amountUsd : ℚ
  orchAmountNative : ℚ
  orchAmountUsd : ℚ
  nativeUsdPrice : Option Numeric
  keepFraction : ℚ
  txFeeNative : ℚ
  txFeeUsd : Option ℚ
  totalValueUsd : Option ℚ
  totalValueNative : ℚ
  blockNumber : ℤ
  valuationVersion : Version
  fromAddress : Option Address
  feeSharePercent : ℚ
  feeCutPercent : ℚ

/-- A line of a rewards report. -/
structure RewardCsvLine where
  blockTimestamp : Timestamp
  txHash : TxHash
  nativeUsdPrice : Option Numeric
  ethPrice : ℚ
  orchTokens : ℚ
  amountNative : ℚ
  keepFraction : ℚ
  txFeeNative : ℚ
  txFeeUsd : ℚ
  totalValueUsd : Option ℚ
  blockNumber : ℤ
  valuationVersion : Version
  rewardCutPercent : ℚ

/-- The lines of either kind of report. -/
inductive ReportBody where
  | payouts (lines : List PayoutCsvLine)
  | rewards (lines : List RewardCsvLine)

/-- `fetch_payout_like_rows` and the loop of `payouts_csv`, for one row and its fee. -/
def payoutLine (row : ReportRow) (txFeeNative : ℚ) : PayoutCsvLine :=
  let keepFraction := (percentDenominator - row.shareRaw) / percentDenominator
  let amountNative := row.valuation.amountNative.toRat
  let amountUsd := row.amountUsd.toRat
  let txFeeUsd := row.valuation.nativeUsdPrice.map fun price => txFeeNative * price.toRat
  { blockTimestamp := row.event.blockTimestamp
    txHash := row.event.txHash
    amountNative
    amountUsd
    orchAmountNative := amountNative * keepFraction
    orchAmountUsd := amountUsd * keepFraction
    nativeUsdPrice := row.valuation.nativeUsdPrice
    keepFraction
    txFeeNative
    txFeeUsd
    totalValueUsd := txFeeUsd.map fun fee => amountUsd - fee
    totalValueNative := amountNative - txFeeNative
    blockNumber := row.event.blockNumber
    valuationVersion := row.valuation.valuationVersion
    fromAddress := row.event.fromAddress
    feeSharePercent := rawPercentToPercent row.shareRaw
    feeCutPercent := rawPercentToPercent (percentDenominator - row.shareRaw) }

/-- `fetch_reward_rows` and the loop of `rewards_csv`, for one row, its fee and the price of ETH in
its pricing chain. -/
def rewardLine (row : ReportRow) (txFeeNative ethPrice : ℚ) : RewardCsvLine :=
  let keepFraction := row.shareRaw / percentDenominator
  let amountNative := row.valuation.amountNative.toRat
  let orchTokens := amountNative * keepFraction
  let txFeeUsd := txFeeNative * ethPrice
  { blockTimestamp := row.event.blockTimestamp
    txHash := row.event.txHash
    nativeUsdPrice := row.valuation.nativeUsdPrice
    ethPrice
    orchTokens
    amountNative
    keepFraction
    txFeeNative
    txFeeUsd
    totalValueUsd := row.valuation.nativeUsdPrice.map fun price =>
      orchTokens * price.toRat - txFeeUsd
    blockNumber := row.event.blockNumber
    valuationVersion := row.valuation.valuationVersion
    rewardCutPercent := rawPercentToPercent row.shareRaw }

section Reports

variable (txFees : TxHash → Option ℚ) (ethPriceFromChain : String → ℚ)

/-- The loop over the rows; it fails at a row whose transaction has no fee. -/
def linesOf {Line : Type} (line : ReportRow → ℚ → Line) (rows : List ReportRow) :
    Except String (List Line) :=
  rows.mapM fun row =>
    match txFees row.event.txHash with
    | some fee => .ok (line row fee)
    | none => .error s!"missing tx fee for {row.event.txHash}"

/-- The body of a report. -/
def reportBody (kind : ReportKind) (rows : List ReportRow) : Except String ReportBody :=
  match kind with
  | .payouts | .gatewayPayouts => .payouts <$> linesOf txFees payoutLine rows
  | .rewards => .rewards <$> linesOf txFees (fun row fee =>
      rewardLine row fee (ethPriceFromChain row.valuation.pricingChain)) rows

/-- `payouts_csv`, `gateway_payouts_csv` and `rewards_csv`: the body and the header
`X-Backfill-Complete`. -/
def report (request : ReportRequest) (db : Db) : Except String (ReportBody × Bool) :=
  if request.endDay < request.startDay then .error "end must be >= start"
  else (reportBody txFees ethPriceFromChain request.kind (request.rows db)).map fun body =>
    (body, request.backfillComplete db)

end Reports

/-! ## Settled reports -/

/-- Every event of a report is stored with all updates that it looks at, valued, and finalized if it
is priced. -/
structure Settled (history : ChainHistory) (request : ReportRequest) (db : Db) : Prop where
  indexed : ∀ row ∈ history.rows, request.selects row = true → StoredKey db row
  updates : ∀ e ∈ db.rawProtocolEvents, request.selects e.toPreparedRow = true →
    ∀ tu ∈ history.rows, isUpdateFor tu e.toPreparedRow = true → StoredKey db tu
  valued : ∀ e ∈ db.rawProtocolEvents, request.selects e.toPreparedRow = true →
    ∃ v, db.eventValuations.lookup (e.id, request.valuationVersion, request.kind.asset) = some v ∧
      (v.amountUsd.isSome = true → e.finality = .finalized)

section Settled

variable {history : ChainHistory} {request : ReportRequest} {db db' : Db}

theorem filter_append_of_none {α : Type} {p : α → Bool} {old new : List α}
    (nothing : ∀ a ∈ new, p a = false) : (old ++ new).filter p = old.filter p := by
  have dropped : new.filter p = [] := by
    refine List.filter_eq_nil_iff.mpr fun a member => ?_
    rw [nothing a member]
    exact Bool.false_ne_true
  rw [List.filter_append, dropped, List.append_nil]

/-- A step keeps the shares of the events of a settled report. -/
theorem shareRaw_step {a : GrowthAction} (settled : Settled history request db)
    (stepped : history.step db a = some db') {e : RawEvent} (member : e ∈ db.rawProtocolEvents)
    (selected : request.selects e.toPreparedRow = true) {e' : RawEvent}
    (same : e'.toPreparedRow = e.toPreparedRow) (kind : ReportKind) :
    shareRaw kind db'.rawProtocolEvents e' = shareRaw kind db.rawProtocolEvents e := by
  obtain ⟨update, new, events, keeps, fresh⟩ := ChainHistory.step_events stepped
  have noUpdate : ∀ tu ∈ new,
      (tu.isCanonical && isUpdateFor tu.toPreparedRow e'.toPreparedRow) = false := by
    intro tu isNew
    by_contra isUpdate
    rw [Bool.not_eq_false, Bool.and_eq_true, same] at isUpdate
    obtain ⟨listed, notStored⟩ := fresh tu isNew
    exact notStored (settled.updates e member selected _ listed isUpdate.2)
  have positions : ∀ tu : RawEvent, (update tu).position = tu.position := fun tu =>
    congrArg (fun row : PreparedRow => toLex (row.blockNumber, row.logIndex)) (keeps tu).1
  have latest : latestUpdate db'.rawProtocolEvents e' =
      (latestUpdate db.rawProtocolEvents e).map update := by
    unfold latestUpdate
    rw [events, filter_append_of_none noUpdate, List.filter_map, orderBy_map positions,
      List.getLast?_map]
    refine congrArg (fun rows => (orderBy RawEvent.position rows).getLast?.map update) ?_
    refine List.filter_congr fun tu _ => ?_
    rw [Function.comp_apply, (keeps tu).1, (keeps tu).2.2.1, same]
  have decoded : ∀ tu : RawEvent, (update tu).decoded = tu.decoded := fun tu =>
    congrArg PreparedRow.decoded (keeps tu).1
  unfold shareRaw
  rw [latest, Option.bind_map]
  simp only [Function.comp_def, decoded]

/-- No step overwrites a valuation. -/
theorem valuation_step {a : GrowthAction} (stepped : history.step db a = some db')
    {key : ValuationKey} {v : ValuationRow} (found : db.eventValuations.lookup key = some v) :
    db'.eventValuations.lookup key = some v := by
  cases a with
  | index contract fromBlock toBlock firstId =>
      simp only [ChainHistory.step, Option.ite_none_right_eq_some, Option.some.injEq] at stepped
      obtain ⟨_, rfl⟩ := stepped
      exact found
  | finalize now latestTs finalizedTs =>
      cases stepped
      exact found
  | value rows =>
      cases stepped
      exact Table.lookup_foldl_insertNew_of_lookup ValuationRow.key id found

/-- The rows of a report, of the selected events alone. -/
theorem rows_eq : request.rows db = (orderBy RawEvent.position (db.rawProtocolEvents.filter
    fun e => request.selects e.toPreparedRow)).filterMap (request.rowOf db) := by
  rw [ReportRequest.rows, ← filter_orderBy, List.filterMap_filter]
  refine List.filterMap_congr fun e _ => ?_
  unfold ReportRequest.rowOf
  cases request.selects e.toPreparedRow <;> rfl

/-- A step keeps the row of an event of a settled report. -/
theorem rowOf_step {a : GrowthAction} (settled : Settled history request db)
    (stepped : history.step db a = some db') {update : RawEvent → RawEvent}
    (keeps : ∀ e, (update e).toPreparedRow = e.toPreparedRow ∧ (update e).id = e.id ∧
      (update e).isCanonical = e.isCanonical ∧ (e.finality = .finalized → update e = e))
    {e : RawEvent} (member : e ∈ db.rawProtocolEvents)
    (selected : request.selects e.toPreparedRow = true) :
    request.rowOf db' (update e) = request.rowOf db e := by
  obtain ⟨v, found, priced⟩ := settled.valued e member selected
  have found' := valuation_step stepped found
  have share := shareRaw_step settled stepped member selected (keeps e).1 request.kind
  unfold ReportRequest.rowOf
  rw [(keeps e).1, (keeps e).2.1, (keeps e).2.2.1, found, found', share]
  cases usd : v.amountUsd with
  | none =>
      -- a failed valuation gives no row, whatever the finality
      simp [usd]
  | some amount =>
      rw [usd] at priced
      rw [(keeps e).2.2.2 (priced rfl)]

/-- **A step keeps a settled report settled, and its rows.** -/
theorem settled_step {a : GrowthAction} (settled : Settled history request db)
    (stepped : history.step db a = some db') :
    Settled history request db' ∧ request.rows db' = request.rows db := by
  obtain ⟨update, new, events, keeps, fresh⟩ := ChainHistory.step_events stepped
  have kept : ∀ {row}, StoredKey db row → StoredKey db' row := ChainHistory.storedKey_step stepped
  have unselected : ∀ e ∈ new, request.selects e.toPreparedRow = false := by
    intro e isNew
    by_contra selected
    obtain ⟨listed, notStored⟩ := fresh e isNew
    exact notStored (settled.indexed _ listed (by simpa using selected))
  -- a selected event was there before the step
  have before : ∀ e ∈ db'.rawProtocolEvents, request.selects e.toPreparedRow = true →
      ∃ old ∈ db.rawProtocolEvents, update old = e ∧
        request.selects old.toPreparedRow = true := by
    intro e member selected
    rw [events] at member
    rcases List.mem_append.mp member with updated | isNew
    · obtain ⟨old, stored, rfl⟩ := List.mem_map.mp updated
      exact ⟨old, stored, rfl, (keeps old).1 ▸ selected⟩
    · exact absurd selected (by rw [unselected e isNew]; exact Bool.false_ne_true)
  refine ⟨⟨fun row listed selected => kept (settled.indexed row listed selected), ?_, ?_⟩, ?_⟩
  · intro e member selected tu listed isUpdate
    obtain ⟨old, stored, rfl, selected'⟩ := before e member selected
    rw [(keeps old).1] at isUpdate
    exact kept (settled.updates old stored selected' tu listed isUpdate)
  · intro e member selected
    obtain ⟨old, stored, rfl, selected'⟩ := before e member selected
    obtain ⟨v, found, priced⟩ := settled.valued old stored selected'
    refine ⟨v, by rw [(keeps old).2.1]; exact valuation_step stepped found, fun isPriced => ?_⟩
    rw [(keeps old).2.2.2 (priced isPriced)]
    exact priced isPriced
  · have positions : ∀ e : RawEvent, (update e).position = e.position := fun e =>
      congrArg (fun row : PreparedRow => toLex (row.blockNumber, row.logIndex)) (keeps e).1
    rw [rows_eq, rows_eq, events, filter_append_of_none unselected, List.filter_map,
      orderBy_map positions, List.filterMap_map]
    have same : ((fun e : RawEvent => request.selects e.toPreparedRow) ∘ update) =
        fun e => request.selects e.toPreparedRow := by
      funext e
      rw [Function.comp_apply, (keeps e).1]
    rw [same]
    refine List.filterMap_congr fun e member => ?_
    obtain ⟨stored, selected⟩ := List.mem_filter.mp ((mem_orderBy ..).mp member)
    exact rowOf_step settled stepped keeps stored selected

/-! ## The header -/

/-- The header is true if the contract has an event after the last day. -/
theorem backfillComplete_iff : request.backfillComplete db = true ↔
    ∃ e ∈ db.rawProtocolEvents, e.contractName = request.kind.contract ∧ e.isCanonical = true ∧
      startOfDay (request.endDay + 1) ≤ e.blockTimestamp := by
  unfold ReportRequest.backfillComplete
  split
  · next latest newest =>
      obtain ⟨member, largest⟩ := List.max?_eq_some_iff.mp newest
      rw [List.forall_mem_map] at largest
      obtain ⟨e, stored, rfl⟩ := List.mem_map.mp member
      obtain ⟨listed, matching⟩ := List.mem_filter.mp stored
      rw [Bool.and_eq_true, decide_eq_true_eq] at matching
      rw [decide_eq_true_eq]
      constructor
      · exact fun reached => ⟨e, listed, matching.1, matching.2, reached⟩
      · rintro ⟨other, listed', contract, canonical, reached⟩
        refine reached.trans (largest other (List.mem_filter.mpr ⟨listed', ?_⟩))
        rw [contract, canonical, decide_eq_true rfl]
        rfl
  · next nothing =>
      rw [List.max?_eq_none_iff, List.map_eq_nil_iff, List.filter_eq_nil_iff] at nothing
      refine iff_of_false Bool.false_ne_true ?_
      rintro ⟨e, listed, contract, canonical, _⟩
      exact nothing e listed (by rw [contract, canonical, decide_eq_true rfl]; rfl)

/-- No step withdraws the header. -/
theorem backfillComplete_step {a : GrowthAction} (complete : request.backfillComplete db = true)
    (stepped : history.step db a = some db') : request.backfillComplete db' = true := by
  obtain ⟨e, listed, contract, canonical, reached⟩ := backfillComplete_iff.mp complete
  obtain ⟨update, new, events, keeps, _⟩ := ChainHistory.step_events stepped
  refine backfillComplete_iff.mpr ⟨update e, ?_, ?_, (keeps e).2.2.1.trans canonical, ?_⟩
  · rw [events]
    exact List.mem_append_left _ (List.mem_map_of_mem listed)
  · exact (congrArg PreparedRow.contractName (keeps e).1).trans contract
  · exact reached.trans_eq (congrArg PreparedRow.blockTimestamp (keeps e).1).symm

/-- A selected row is from the contract that the header looks at, before the day after the last. -/
theorem of_selects {row : PreparedRow} (listed : row ∈ history.rows)
    (selected : request.selects row = true) :
    row.contractName = request.kind.contract ∧
      row.blockTimestamp < startOfDay (request.endDay + 1) := by
  unfold ReportRequest.selects at selected
  simp only [Bool.and_eq_true, decide_eq_true_eq] at selected
  obtain ⟨⟨⟨name, _⟩, before⟩, _⟩ := selected
  refine ⟨?_, before⟩
  cases kind : request.kind with
  | payouts | gatewayPayouts =>
      rw [kind] at name
      exact history.ofTicketBroker row listed name
  | rewards =>
      rw [kind] at name
      exact history.ofBondingManager row listed name

/-- What the header leaves open: every event of the report is valued, and finalized if it is priced,
and every update that a payout looks at is stored. -/
structure AwaitsNothing (history : ChainHistory) (request : ReportRequest) (db : Db) : Prop where
  valued : ∀ e ∈ db.rawProtocolEvents, request.selects e.toPreparedRow = true →
    ∃ v, db.eventValuations.lookup (e.id, request.valuationVersion, request.kind.asset) = some v ∧
      (v.amountUsd.isSome = true → e.finality = .finalized)
  updates : request.kind ≠ .rewards →
    ∀ e ∈ db.rawProtocolEvents, request.selects e.toPreparedRow = true →
      ∀ tu ∈ history.rows, isUpdateFor tu e.toPreparedRow = true → StoredKey db tu

/-- **The header shows the rest.** -/
theorem settled_of_complete (inOrder : history.InOrder db)
    (complete : request.backfillComplete db = true) (awaits : AwaitsNothing history request db) :
    Settled history request db := by
  obtain ⟨latest, stored, contract, _, reached⟩ := backfillComplete_iff.mp complete
  refine ⟨fun row listed selected => ?_, fun e member selected tu listed isUpdate => ?_,
    awaits.valued⟩
  · obtain ⟨own, before⟩ := of_selects listed selected
    exact ChainHistory.storedKey_of_later inOrder stored listed (own.trans contract.symm)
      (before.trans_le reached)
  · by_cases payout : request.kind ≠ .rewards
    · exact awaits.updates payout e member selected tu listed isUpdate
    · -- a reward and its updates come from one contract
      rw [not_not] at payout
      rw [payout] at contract
      have source := inOrder.fromHistory e member
      have before := (of_selects source selected).2.trans_le reached
      have later := history.timely _ source _ (inOrder.fromHistory latest stored) before
      unfold isUpdateFor at isUpdate
      simp only [Bool.and_eq_true, Bool.or_eq_true, decide_eq_true_eq] at isUpdate
      obtain ⟨⟨⟨⟨ofBonding, _⟩, _⟩, _⟩, position⟩ := isUpdate
      refine inOrder.noGap latest stored tu listed (ofBonding.trans contract.symm) ?_
      rcases position with earlier | ⟨sameBlock, _⟩
      · exact earlier.trans later
      · exact sameBlock.trans_lt later

end Settled

/-! ## Every later state -/

/-- **A complete report that awaits nothing stays as it is in every later state**: after chunks in
block order, whatever is indexed, finalized and valued afterwards. -/
theorem completeReport_stays {history : ChainHistory} {request : ReportRequest} {db later : Db}
    (reached : GuardedRun history.step history.leavesNoGap Db.empty db)
    (complete : request.backfillComplete db = true) (awaits : AwaitsNothing history request db)
    (run : Run history.step db later) (txFees : TxHash → Option ℚ)
    (ethPriceFromChain : String → ℚ) :
    request.rows later = request.rows db ∧
      report txFees ethPriceFromChain request later =
        report txFees ethPriceFromChain request db := by
  have inOrder := reached.invariant ChainHistory.inOrder_step ChainHistory.inOrder_empty
  have preserved : ∀ s a s', (Settled history request s ∧ request.backfillComplete s = true ∧
      request.rows s = request.rows db) → True → history.step s a = some s' →
        Settled history request s' ∧ request.backfillComplete s' = true ∧
          request.rows s' = request.rows db := by
    rintro s a s' ⟨settled, header, rows⟩ _ stepped
    obtain ⟨settled', same⟩ := settled_step settled stepped
    exact ⟨settled', backfillComplete_step header stepped, same.trans rows⟩
  obtain ⟨_, header, rows⟩ := GuardedRun.invariant preserved run
    ⟨settled_of_complete inOrder complete awaits, complete, rfl⟩
  refine ⟨rows, ?_⟩
  unfold report
  rw [rows, header, complete]

/-! ## Two tickets -/

/-- A ticket in the block of its day. -/
def ticketOnDay (day : ℕ) : PreparedRow :=
  { Rollups.Pipeline.ticketRow day "0xg" with
    blockNumber := day
    blockTimestamp := startOfDay day }

/-- A ticket on each of two days. -/
def twoDays : ChainHistory where
  rows := [ticketOnDay 0, ticketOnDay 1]
  timely := by decide +kernel
  ofTicketBroker := by decide +kernel
  ofBondingManager := by decide +kernel

/-- The payouts of the first day. -/
def firstDay : ReportRequest := ⟨.payouts, "0xo", 0, 0, "v1"⟩

def indexTickets : List GrowthAction := [.index .TicketBroker 0 1 1]

def settleTickets : List GrowthAction :=
  [.finalize 0 1000 1000, .value [Rollups.Pipeline.ticketValuation 1 "v1"]]

/-- A report of finalized and valued tickets stays. -/
theorem settledTickets_stay :
    ∃ db later, execute twoDays.step Db.empty (indexTickets ++ settleTickets) = some db ∧
      execute twoDays.step db [.finalize 0 1000000 1000000] = some later ∧
        firstDay.backfillComplete db = true ∧ firstDay.rows later = firstDay.rows db := by
  have finalizes : ∀ db, execute twoDays.step db [.finalize 0 1000000 1000000] =
      some (runOnce 0 1000000 1000000 db) := fun _ => rfl
  refine ⟨(execute twoDays.step Db.empty (indexTickets ++ settleTickets)).get (by decide +kernel),
    _, (Option.some_get _).symm, finalizes _, by decide +kernel, ?_⟩
  refine (completeReport_stays (execute_guardedRun (Option.some_get _).symm (by decide +kernel))
    (by decide +kernel) ⟨?_, ?_⟩ (execute_run (finalizes _)) (fun _ => none) (fun _ => 0)).1
  · decide +kernel
  · intro _
    decide +kernel

/-- **A complete report changes when its tentative ticket is finalized and valued.** -/
theorem tentative_changes : ¬ ∀ (history : ChainHistory) (request : ReportRequest) (db later : Db),
    GuardedRun history.step history.leavesNoGap Db.empty db →
      request.backfillComplete db = true → Run history.step db later →
        request.rows later = request.rows db := by
  intro law
  have same := law twoDays firstDay
    ((execute twoDays.step Db.empty indexTickets).get (by decide +kernel))
    ((execute twoDays.step ((execute twoDays.step Db.empty indexTickets).get (by decide +kernel))
      settleTickets).get (by decide +kernel))
    (execute_guardedRun (Option.some_get _).symm (by decide +kernel)) (by decide +kernel)
    (execute_run (Option.some_get _).symm)
  exact absurd (congrArg List.length same) (by decide +kernel)

end ProtocolExplorer.Api
