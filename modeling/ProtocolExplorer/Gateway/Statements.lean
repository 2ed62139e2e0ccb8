import ProtocolExplorer.Finality.Lifecycle
import ProtocolExplorer.Indexer.Backfill
import ProtocolExplorer.Lib.OrderedBatch
import ProtocolExplorer.Lib.Process
import ProtocolExplorer.Store.Database

/-!
# The statements of the gateway walks

The staker's gateway pass and the balance endpoints of the API read and write the same tables,
one SQL statement or one RPC call at a time.  `GatewayOp` lists these statements and
`World.act` says what each of them does to the database, the call cache and the chain they
share.

A contract read at a block is answered from `rpc_call_cache` when the call has been answered
before, whatever the chain has become since; otherwise from the present chain.
-/

set_option autoImplicit false

namespace ProtocolExplorer.Gateway

open ProtocolExplorer.Lib
open ProtocolExplorer.Store
open ProtocolExplorer.Indexer

/-! ## The TicketBroker contract -/

/-- What `getSenderInfo` answers, in wei. -/
structure SenderInfo where
  deposit : ℕ
  withdrawRound : ℕ
  fundsRemaining : ℕ
  claimedInCurrentRound : ℕ
  deriving DecidableEq

/-- The contract reads. -/
inductive BrokerCall where
  | getSenderInfo (sender : Address)
  | isUnlockInProgress (sender : Address)
  | claimableReserve (reserveHolder claimant : Address)
  | claimedReserve (reserveHolder claimant : Address)
  deriving DecidableEq

/-- The decoded return value of a call. -/
def BrokerCall.Answer : BrokerCall → Type
  | getSenderInfo _ => SenderInfo
  | isUnlockInProgress _ => Bool
  | claimableReserve .. => ℕ
  | claimedReserve .. => ℕ

/-- The rows of `rpc_call_cache` for reads of the contract at a block. -/
abbrev BrokerCache := Finmap fun question : BrokerCall × ℤ => question.1.Answer

/-! ## Events -/

/-- The kinds that `fetch_flow_candidates_after` lists. -/
def flowEvents : List EventName :=
  [.DepositFunded, .ReserveFunded, .WinningTicketTransfer, .WinningTicketRedeemed, .ReserveClaimed,
    .Withdrawal]

/-- The kinds that `fetch_claimant_candidates_after` lists. -/
def claimantEvents : List EventName :=
  [.WinningTicketTransfer, .WinningTicketRedeemed, .ReserveClaimed]

/-- `GATEWAY_TOUCH_EVENTS`, the kinds that `fetch_balance_candidates_after` lists. -/
def touchEvents : List EventName :=
  [.DepositFunded, .ReserveFunded, .WinningTicketTransfer, .WinningTicketRedeemed, .ReserveClaimed,
    .Withdrawal, .Unlock, .UnlockCancelled]

/-- The `CASE` of `flow_kind`. -/
def flowKindOf : EventName → FlowKind
  | .DepositFunded => .depositIn
  | .ReserveFunded => .reserveIn
  | .WinningTicketTransfer => .reserveTransfer
  | .WinningTicketRedeemed => .ticketRedeemed
  | .ReserveClaimed => .reserveClaimed
  | .Withdrawal => .withdrawal
  | _ => .other

/-- A canonical row of the contract of one of the given kinds, with a sender. -/
def brokerEvent (names : List EventName) (includeTentative : Bool) (e : RawEvent) : Bool :=
  e.eligible includeTentative && decide (e.contractName = .TicketBroker) &&
    decide (e.eventName ∈ names) && e.fromAddress.isSome

/-- `$2 IS NULL OR block_number >= $2`. -/
def reached (resumeFromBlock : Option ℤ) (blockNumber : ℤ) : Bool :=
  resumeFromBlock.all fun block => decide (block ≤ blockNumber)

/-! ## Candidates -/

structure GatewayCandidate where
  eventId : ℤ
  gatewayAddress : Address
  blockNumber : ℤ
  blockTimestamp : Timestamp
  blockHash : BlockHash
  deriving DecidableEq

/-- A touch as a balance candidate. -/
def GatewayCandidate.ofTouch (gateway : Address) (e : RawEvent) : GatewayCandidate where
  eventId := e.id
  gatewayAddress := gateway
  blockNumber := e.blockNumber
  blockTimestamp := e.blockTimestamp
  blockHash := e.blockHash

structure GatewayFlowCandidate where
  eventId : ℤ
  gatewayAddress : Address
  claimantAddress : Option Address
  counterpartyAddress : Option Address
  eventName : EventName
  flowKind : FlowKind
  blockNumber : ℤ
  blockTimestamp : Timestamp
  txHash : TxHash
  logIndex : ℕ
  asset : Option Asset
  amountNative : Option Numeric
  amountUsd : Option Numeric
  valuationVersion : Option Version
  blockHash : BlockHash
  deriving DecidableEq

/-- The priced valuations of an event; their order is not specified. -/
def pricedValuations (db : Db) (eventId : ℤ) : List ValuationRow :=
  [Asset.LPT, Asset.ETH].flatMap fun asset =>
    (sortKeys ((db.eventValuations.keys.filter fun key =>
      key.1 = eventId ∧ key.2.2 = asset).image fun key => key.2.1)).flatMap fun version =>
        ((db.eventValuations.lookup (eventId, version, asset)).filter fun row =>
          decide (row.status = .priced)).toList

/-- `LEFT JOIN event_valuations v ON v.event_id = r.id AND v.status = 'priced'`. -/
def joinedValuations (db : Db) (eventId : ℤ) : List (Option ValuationRow) :=
  if pricedValuations db eventId = [] then [none] else (pricedValuations db eventId).map some

/-- The claimant of an event of one of the claimant kinds. -/
def claimantOf (e : RawEvent) : Option Address :=
  if e.eventName ∈ claimantEvents then e.toAddress else none

/-- The rows that the flow and claimant queries return for one event. -/
def flowCandidatesOf (db : Db) (e : RawEvent) : List GatewayFlowCandidate :=
  e.fromAddress.toList.flatMap fun gateway => (joinedValuations db e.id).map fun valuation =>
    { eventId := e.id
      gatewayAddress := gateway
      claimantAddress := claimantOf e
      counterpartyAddress := e.toAddress
      eventName := e.eventName
      flowKind := flowKindOf e.eventName
      blockNumber := e.blockNumber
      blockTimestamp := e.blockTimestamp
      txHash := e.txHash
      logIndex := e.logIndex
      asset := e.asset
      amountNative := e.amountNormalized
      amountUsd := valuation.bind (·.amountUsd)
      valuationVersion := valuation.map (·.valuationVersion)
      blockHash := e.blockHash }

/-- `ORDER BY block_number, log_index`. -/
def GatewayFlowCandidate.position (c : GatewayFlowCandidate) : Lex (ℤ × ℕ) :=
  toLex (c.blockNumber, c.logIndex)

/-- The events whose flow row is missing. -/
def missingFlows (includeTentative : Bool) (db : Db) : List RawEvent :=
  db.rawProtocolEvents.filter fun e => brokerEvent flowEvents includeTentative e &&
    decide ((e.id, flowKindOf e.eventName) ∉ db.gatewayFlows)

/-- `fetch_flow_candidates_after`. -/
def fetchFlowCandidatesAfter (includeTentative : Bool) (resumeFromBlock : Option ℤ) (limit : ℕ)
    (db : Db) : List GatewayFlowCandidate :=
  orderedBatch GatewayFlowCandidate.position limit <|
    ((missingFlows includeTentative db).filter fun e =>
      reached resumeFromBlock e.blockNumber).flatMap (flowCandidatesOf db)

/-- The events whose claimant snapshot is missing. -/
def missingClaimants (includeTentative : Bool) (db : Db) : List RawEvent :=
  db.rawProtocolEvents.filter fun e => brokerEvent claimantEvents includeTentative e &&
    e.toAddress.isSome && (e.fromAddress.toList.all fun gateway => e.toAddress.toList.all
      fun claimant => decide ((gateway, claimant, e.blockNumber) ∉ db.gatewayClaimantsByBlock))

/-- `fetch_claimant_candidates_after`. -/
def fetchClaimantCandidatesAfter (includeTentative : Bool) (resumeFromBlock : Option ℤ)
    (limit : ℕ) (db : Db) : List GatewayFlowCandidate :=
  orderedBatch GatewayFlowCandidate.position limit <|
    ((missingClaimants includeTentative db).filter fun e =>
      reached resumeFromBlock e.blockNumber).flatMap (flowCandidatesOf db)

/-- The latest touch of every gateway in every block. -/
def latestTouches (includeTentative : Bool) (db : Db) : List GatewayCandidate :=
  (distinctOn (fun e : RawEvent => (e.fromAddress, e.blockNumber))
    (orderBy (fun e : RawEvent => OrderDual.toDual e.logIndex)
      (db.rawProtocolEvents.filter (brokerEvent touchEvents includeTentative)))).flatMap fun e =>
        e.fromAddress.toList.map fun gateway => .ofTouch gateway e

/-- The touches whose balance snapshot is missing. -/
def missingBalances (includeTentative : Bool) (db : Db) : List GatewayCandidate :=
  (latestTouches includeTentative db).filter fun touch =>
    decide ((touch.gatewayAddress, touch.blockNumber) ∉ db.gatewayBalancesByBlock)

/-- `ORDER BY block_number, gateway_address`. -/
def GatewayCandidate.position (touch : GatewayCandidate) : Lex (ℤ × Address) :=
  toLex (touch.blockNumber, touch.gatewayAddress)

/-- `fetch_balance_candidates_after`. -/
def fetchBalanceCandidatesAfter (includeTentative : Bool) (resumeFromBlock : Option ℤ)
    (limit : ℕ) (db : Db) : List GatewayCandidate :=
  orderedBatch GatewayCandidate.position limit <|
    (missingBalances includeTentative db).filter fun touch =>
      reached resumeFromBlock touch.blockNumber

/-- A balance candidate stands for a touch. -/
theorem exists_touch_of_candidate {includeTentative : Bool} {resumeFromBlock : Option ℤ}
    {limit : ℕ} {db : Db} {c : GatewayCandidate}
    (fetched : c ∈ fetchBalanceCandidatesAfter includeTentative resumeFromBlock limit db) :
    ∃ e ∈ db.rawProtocolEvents, brokerEvent touchEvents includeTentative e = true ∧
      e.fromAddress = some c.gatewayAddress ∧ e.id = c.eventId ∧ e.blockNumber = c.blockNumber ∧
      e.blockTimestamp = c.blockTimestamp ∧ e.blockHash = c.blockHash := by
  have listed := (List.mem_filter.mp (List.mem_filter.mp (mem_of_mem_orderedBatch fetched)).1).1
  obtain ⟨e, kept, built⟩ := List.mem_flatMap.mp listed
  obtain ⟨gateway, sender, rfl⟩ := List.mem_map.mp built
  obtain ⟨stored, touch⟩ := List.mem_filter.mp (mem_orderBy.mp (mem_of_mem_distinctOn kept))
  exact ⟨e, stored, touch, Option.mem_toList.mp sender, rfl, rfl, rfl, rfl⟩

/-! ## Balance rows -/

/-- What the balance endpoints answer. -/
structure GatewayBalanceRow where
  gatewayAddress : Address
  blockNumber : ℤ
  deposit : Numeric
  reserveFundsRemaining : Numeric
  reserveClaimedInCurrentRound : Numeric
  withdrawRound : ℤ
  unlockInProgress : Bool
  source : String
  deriving DecidableEq

/-- `materialized_balance_row`. -/
def materializedBalanceRow (gateway : Address) (block : ℤ) (row : GatewayBalance) :
    GatewayBalanceRow where
  gatewayAddress := gateway
  blockNumber := block
  deposit := row.deposit
  reserveFundsRemaining := row.reserveFundsRemaining
  reserveClaimedInCurrentRound := row.reserveClaimedInCurrentRound
  withdrawRound := row.withdrawRound
  unlockInProgress := row.unlockInProgress
  source := row.source

/-- The latest block, up to a bound, for which a gateway's balance is stored. -/
def latestBalanceBlock (gateway : Address) (bound : Option ℤ) (db : Db) : Option ℤ :=
  latest ((db.gatewayBalancesByBlock.keys.filter fun key =>
    key.1 = gateway ∧ bound.all fun block => decide (key.2 ≤ block)).image Prod.snd)

/-- `load_gateway_balance_materialized`, and without a bound
`load_gateway_balance_latest_materialized`. -/
def loadGatewayBalanceMaterialized (gateway : Address) (bound : Option ℤ) (db : Db) :
    Option GatewayBalanceRow :=
  (latestBalanceBlock gateway bound db).bind fun block =>
    (db.gatewayBalancesByBlock.lookup (gateway, block)).map (materializedBalanceRow gateway block)

/-- A canonical touch of a gateway, whatever its finality. -/
def touches (gateway : Address) (e : RawEvent) : Bool :=
  brokerEvent touchEvents true e && decide (e.fromAddress = some gateway)

theorem touches_iff {gateway : Address} {e : RawEvent} :
    touches gateway e = true ↔ e.isCanonical = true ∧ e.contractName = .TicketBroker ∧
      e.eventName ∈ touchEvents ∧ e.fromAddress = some gateway := by
  simp only [touches, brokerEvent, RawEvent.eligible, Bool.true_or, Bool.and_true, Bool.and_eq_true,
    decide_eq_true_eq]
  constructor
  · rintro ⟨⟨⟨⟨canonical, contract⟩, listed⟩, _⟩, sender⟩
    exact ⟨canonical, contract, listed, sender⟩
  · rintro ⟨canonical, contract, listed, sender⟩
    exact ⟨⟨⟨⟨canonical, contract⟩, listed⟩, by rw [sender]; rfl⟩, sender⟩

/-- Whether a row is a touch depends on its decoded columns and on being canonical. -/
theorem touches_congr {gateway : Address} {e e' : RawEvent}
    (row : e'.toPreparedRow = e.toPreparedRow) (canonical : e'.isCanonical = e.isCanonical) :
    touches gateway e' = touches gateway e := by
  rw [Bool.eq_iff_iff, touches_iff, touches_iff, canonical, row]

/-- `load_gateway_latest_touch`. -/
def loadGatewayLatestTouch (gateway : Address) (bound : Option ℤ) (db : Db) : Option RawEvent :=
  (orderBy (fun e : RawEvent => OrderDual.toDual e.position)
    (db.rawProtocolEvents.filter fun e => touches gateway e &&
      bound.all fun block => decide (e.blockNumber ≤ block))).head?

/-! ## The shared state -/

/-- The chain as it is now, how much of it is final, and what is stored.  `scanned` remembers
the highest block at which each walk has fetched a candidate and `fetched` the events that have
been flow candidates; no statement reads them. -/
structure World where
  chain : List BlockHash
  /-- The number of final blocks. -/
  finalBlocks : ℕ
  calls : BrokerCache
  db : Db
  scanned : GatewayAxis → Option ℤ
  fetched : Finset ℤ

/-- The statements, one query or call each. -/
inductive GatewayOp where
  | loadGatewayCheckpoint (axis : GatewayAxis)
  | advanceGatewayCheckpoint (axis : GatewayAxis) (block : ℤ)
  | fetchFlowCandidatesAfter (includeTentative : Bool) (resumeFromBlock : Option ℤ) (limit : ℕ)
  | fetchClaimantCandidatesAfter (includeTentative : Bool) (resumeFromBlock : Option ℤ)
      (limit : ℕ)
  | fetchBalanceCandidatesAfter (includeTentative : Bool) (resumeFromBlock : Option ℤ) (limit : ℕ)
  | upsertGatewayFlow (candidate : GatewayFlowCandidate)
  | upsertGatewayClaimant (gateway claimant : Address) (block : ℤ) (row : GatewayClaimant)
  | upsertGatewayBalance (gateway : Address) (block : ℤ) (row : GatewayBalance)
  | loadGatewayBalanceMaterialized (gateway : Address) (bound : Option ℤ)
  | loadGatewayLatestTouch (gateway : Address) (bound : Option ℤ)
  /-- `single_call_cached` of an `eth_call`. -/
  | brokerCall (call : BrokerCall) (block : ℤ)
  | ethBlockNumber
  | ethGetBlockHeader (block : ℤ)
  deriving DecidableEq

/-- What a statement answers. -/
def GatewayOp.Answer : GatewayOp → Type
  | loadGatewayCheckpoint _ => Option ℤ
  | advanceGatewayCheckpoint .. => PUnit
  | fetchFlowCandidatesAfter .. => List GatewayFlowCandidate
  | fetchClaimantCandidatesAfter .. => List GatewayFlowCandidate
  | fetchBalanceCandidatesAfter .. => List GatewayCandidate
  | upsertGatewayFlow _ => PUnit
  | upsertGatewayClaimant .. => PUnit
  | upsertGatewayBalance .. => PUnit
  | loadGatewayBalanceMaterialized .. => Option GatewayBalanceRow
  | loadGatewayLatestTouch .. => Option RawEvent
  | brokerCall call _ => call.Answer
  | ethBlockNumber => ℤ
  | ethGetBlockHeader _ => Timestamp × BlockHash

/-- The row that `upsert_gateway_flow` writes. -/
def GatewayFlowCandidate.row (c : GatewayFlowCandidate) : GatewayFlow where
  gatewayAddress := c.gatewayAddress
  claimantAddress := c.claimantAddress
  counterpartyAddress := c.counterpartyAddress
  blockNumber := c.blockNumber
  blockTimestamp := c.blockTimestamp
  txHash := c.txHash
  logIndex := c.logIndex
  eventName := c.eventName
  asset := c.asset
  amountNative := c.amountNative
  amountUsd := c.amountUsd
  valuationVersion := c.valuationVersion

/-- `upsert_gateway_flow`. -/
def upsertGatewayFlow (c : GatewayFlowCandidate) (db : Db) : Db :=
  { db with
    gatewayFlows := Table.upsert db.gatewayFlows (c.eventId, c.flowKind) fun _ => c.row }

/-- `upsert_gateway_claimant_row`. -/
def upsertGatewayClaimant (gateway claimant : Address) (block : ℤ) (row : GatewayClaimant)
    (db : Db) : Db :=
  { db with
    gatewayClaimantsByBlock :=
      Table.upsert db.gatewayClaimantsByBlock (gateway, claimant, block) fun _ => row }

/-- `upsert_gateway_row`, and the insert of `persist_gateway_balance_snapshot`. -/
def upsertGatewayBalance (gateway : Address) (block : ℤ) (row : GatewayBalance) (db : Db) : Db :=
  { db with
    gatewayBalancesByBlock :=
      Table.upsert db.gatewayBalancesByBlock (gateway, block) fun _ => row }

namespace World

/-- Nothing on the chain and nothing stored. -/
def start : World := ⟨[], 0, ∅, .empty, fun _ => none, ∅⟩

/-- The hash of a block of the present chain. -/
def blockAt (w : World) (block : ℤ) : Option BlockHash :=
  if 0 ≤ block then w.chain[block.toNat]? else none

/-- Remember the last block of a batch. -/
def scan (w : World) (axis : GatewayAxis) (batch : List ℤ) : World :=
  { w with
    scanned := Function.update w.scanned axis
      (latest (batch.toFinset ∪ (w.scanned axis).toFinset)) }

/-- Remember the flow candidates of a batch. -/
def fetch (w : World) (candidates : List GatewayFlowCandidate) : World :=
  { w.scan .flow (candidates.map (·.blockNumber)) with
    fetched := w.fetched ∪ (candidates.map (·.eventId)).toFinset }

variable (blocks : BlockHash → Block) (broker : BlockHash → (call : BrokerCall) → call.Answer)

/-- One statement; `none` when a call fails. -/
def act (w : World) : (op : GatewayOp) → Option (World × op.Answer)
  | .loadGatewayCheckpoint axis => some (w, w.db.loadCheckpoint (.gateway axis))
  | .advanceGatewayCheckpoint axis block =>
      some ({ w with db := w.db.advanceCheckpoint (.gateway axis) block }, ⟨⟩)
  | .fetchFlowCandidatesAfter includeTentative resumeFromBlock limit =>
      let candidates := fetchFlowCandidatesAfter includeTentative resumeFromBlock limit w.db
      some (w.fetch candidates, candidates)
  | .fetchClaimantCandidatesAfter includeTentative resumeFromBlock limit =>
      let candidates := fetchClaimantCandidatesAfter includeTentative resumeFromBlock limit w.db
      some (w.scan .claimant (candidates.map (·.blockNumber)), candidates)
  | .fetchBalanceCandidatesAfter includeTentative resumeFromBlock limit =>
      let candidates := fetchBalanceCandidatesAfter includeTentative resumeFromBlock limit w.db
      some (w.scan .balance (candidates.map (·.blockNumber)), candidates)
  | .upsertGatewayFlow candidate =>
      some ({ w with db := upsertGatewayFlow candidate w.db }, ⟨⟩)
  | .upsertGatewayClaimant gateway claimant block row =>
      some ({ w with db := upsertGatewayClaimant gateway claimant block row w.db }, ⟨⟩)
  | .upsertGatewayBalance gateway block row =>
      some ({ w with db := upsertGatewayBalance gateway block row w.db }, ⟨⟩)
  | .loadGatewayBalanceMaterialized gateway bound =>
      some (w, loadGatewayBalanceMaterialized gateway bound w.db)
  | .loadGatewayLatestTouch gateway bound => some (w, loadGatewayLatestTouch gateway bound w.db)
  | .brokerCall call block =>
      match w.calls.lookup (call, block) with
      | some answer => some (w, answer)
      | none => (w.blockAt block).map fun hash =>
          ({ w with calls := w.calls.insert (call, block) (broker hash call) }, broker hash call)
  | .ethBlockNumber =>
      if w.chain = [] then none else some (w, (w.chain.length : ℤ) - 1)
  | .ethGetBlockHeader block => (w.blockAt block).map fun hash =>
      (w, toTimestamp (blocks hash).timestamp, hash)

/-! ## What a statement changes -/

/-- The database after a statement. -/
def written (db : Db) : GatewayOp → Db
  | .advanceGatewayCheckpoint axis block => db.advanceCheckpoint (.gateway axis) block
  | .upsertGatewayFlow candidate => upsertGatewayFlow candidate db
  | .upsertGatewayClaimant gateway claimant block row =>
      upsertGatewayClaimant gateway claimant block row db
  | .upsertGatewayBalance gateway block row => upsertGatewayBalance gateway block row db
  | _ => db

@[simp] theorem written_rawProtocolEvents (db : Db) (op : GatewayOp) :
    (written db op).rawProtocolEvents = db.rawProtocolEvents := by
  cases op <;> rfl

@[simp] theorem written_eventValuations (db : Db) (op : GatewayOp) :
    (written db op).eventValuations = db.eventValuations := by
  cases op <;> rfl

section Act

variable {blocks broker} {w w' : World} {op : GatewayOp} {answer : op.Answer}

/-- A statement does not touch the chain, and changes the database as stated. -/
theorem act_frame (acted : w.act blocks broker op = some (w', answer)) :
    w'.chain = w.chain ∧ w'.finalBlocks = w.finalBlocks ∧ w'.db = written w.db op := by
  cases op with
  | brokerCall call block =>
      simp only [act] at acted
      split at acted
      · cases acted
        exact ⟨rfl, rfl, rfl⟩
      · obtain ⟨hash, _, same⟩ := Option.map_eq_some_iff.mp acted
        cases same
        exact ⟨rfl, rfl, rfl⟩
  | ethGetBlockHeader block =>
      obtain ⟨hash, _, same⟩ := Option.map_eq_some_iff.mp acted
      cases same
      exact ⟨rfl, rfl, rfl⟩
  | ethBlockNumber =>
      simp only [act] at acted
      split at acted
      · cases acted
      · cases acted
        exact ⟨rfl, rfl, rfl⟩
  | _ =>
      cases acted
      exact ⟨rfl, rfl, rfl⟩

/-- Only the queries of a pass move what has been scanned. -/
theorem act_scanned (acted : w.act blocks broker op = some (w', answer)) :
    w'.scanned = w.scanned ∨ ∃ axis batch, w'.scanned = (w.scan axis batch).scanned := by
  cases op with
  | brokerCall call block =>
      simp only [act] at acted
      split at acted
      · cases acted
        exact Or.inl rfl
      · obtain ⟨hash, _, same⟩ := Option.map_eq_some_iff.mp acted
        cases same
        exact Or.inl rfl
  | ethGetBlockHeader block =>
      obtain ⟨hash, _, same⟩ := Option.map_eq_some_iff.mp acted
      cases same
      exact Or.inl rfl
  | ethBlockNumber =>
      simp only [act] at acted
      split at acted
      · cases acted
      · cases acted
        exact Or.inl rfl
  | fetchFlowCandidatesAfter includeTentative resumeFromBlock limit =>
      cases acted
      exact Or.inr ⟨_, _, rfl⟩
  | fetchClaimantCandidatesAfter includeTentative resumeFromBlock limit =>
      cases acted
      exact Or.inr ⟨_, _, rfl⟩
  | fetchBalanceCandidatesAfter includeTentative resumeFromBlock limit =>
      cases acted
      exact Or.inr ⟨_, _, rfl⟩
  | _ =>
      cases acted
      exact Or.inl rfl

end Act

section Fetched

variable {blocks broker} {w w' : World} {op : GatewayOp} {answer : op.Answer}

/-- Only the flow query adds to what has been fetched. -/
theorem act_fetched (acted : w.act blocks broker op = some (w', answer)) :
    w'.fetched = w.fetched ∨ ∃ candidates, w' = w.fetch candidates := by
  cases op with
  | brokerCall call block =>
      simp only [act] at acted
      split at acted
      · cases acted
        exact Or.inl rfl
      · obtain ⟨hash, _, same⟩ := Option.map_eq_some_iff.mp acted
        cases same
        exact Or.inl rfl
  | ethGetBlockHeader block =>
      obtain ⟨hash, _, same⟩ := Option.map_eq_some_iff.mp acted
      cases same
      exact Or.inl rfl
  | ethBlockNumber =>
      simp only [act] at acted
      split at acted
      · cases acted
      · cases acted
        exact Or.inl rfl
  | fetchFlowCandidatesAfter includeTentative resumeFromBlock limit =>
      cases acted
      exact Or.inr ⟨_, rfl⟩
  | _ =>
      cases acted
      exact Or.inl rfl

theorem mem_fetched_of_act (acted : w.act blocks broker op = some (w', answer)) {eventId : ℤ}
    (known : eventId ∈ w.fetched) : eventId ∈ w'.fetched := by
  rcases act_fetched acted with same | ⟨candidates, rfl⟩
  · exact same ▸ known
  · exact Finset.mem_union_left _ known

end Fetched

/-- A scan reaches every block of its batch and what had been reached before. -/
theorem exists_scanned_scan (w : World) (axis : GatewayAxis) (batch : List ℤ) {block : ℤ}
    (known : block ∈ batch ∨ block ∈ w.scanned axis) :
    ∃ last ∈ (w.scan axis batch).scanned axis, block ≤ last := by
  have updated : (w.scan axis batch).scanned axis =
      latest (batch.toFinset ∪ (w.scanned axis).toFinset) := Function.update_self ..
  have member : block ∈ batch.toFinset ∪ (w.scanned axis).toFinset :=
    Finset.mem_union.mpr (known.imp List.mem_toFinset.mpr Option.mem_toFinset.mpr)
  rw [updated]
  cases largest : latest (batch.toFinset ∪ (w.scanned axis).toFinset) with
  | none =>
      rw [latest_eq_none.mp largest] at member
      exact absurd member (Finset.notMem_empty block)
  | some last => exact ⟨last, rfl, (latest_eq_some.mp largest).2 block member⟩

/-- What has been scanned goes up. -/
theorem exists_scanned_of_scan (w : World) (walk : GatewayAxis) (batch : List ℤ)
    {axis : GatewayAxis} {last : ℤ} (scanned : last ∈ w.scanned axis) :
    ∃ last' ∈ (w.scan walk batch).scanned axis, last ≤ last' := by
  by_cases same : axis = walk
  · subst same
    exact exists_scanned_scan w axis batch (Or.inr scanned)
  · have unmoved : (w.scan walk batch).scanned axis = w.scanned axis :=
      Function.update_of_ne same ..
    exact ⟨last, by rwa [unmoved], le_refl last⟩

/-! ## What happens around the gateway walks -/

/-- The chain grows or is reorganised, other loops write the event log, the valuator
commits a valuation. -/
inductive Event where
  /-- Keep the first blocks of the chain and continue with new ones. -/
  | reorg (keep : ℕ) (new : List BlockHash)
  | becomeFinal (finalBlocks : ℕ)
  /-- The indexer, the finality watcher or the reorg watcher. -/
  | rows (a : Finality.LifecycleAction)
  /-- `INSERT … ON CONFLICT DO NOTHING` into `event_valuations`. -/
  | value (row : ValuationRow)

/-- The chain after a reorg. -/
def reorged (w : World) (keep : ℕ) (new : List BlockHash) : List BlockHash :=
  w.chain.take keep ++ new

def occur (w : World) : Event → Option World
  | .reorg keep new =>
      if w.finalBlocks ≤ keep ∧ keep ≤ w.chain.length then
        some { w with chain := w.reorged keep new }
      else none
  | .becomeFinal finalBlocks =>
      if w.finalBlocks ≤ finalBlocks ∧ finalBlocks ≤ w.chain.length then
        some { w with finalBlocks }
      else none
  | .rows a => (Finality.Lifecycle.step w.db.rawProtocolEvents a).map fun events =>
      { w with db := { w.db with rawProtocolEvents := events } }
  | .value row =>
      some { w with
        db := { w.db with eventValuations := Table.insertNew w.db.eventValuations row.key row } }

end World

end ProtocolExplorer.Gateway
