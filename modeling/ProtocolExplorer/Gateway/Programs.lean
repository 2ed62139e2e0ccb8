import ProtocolExplorer.Gateway.Statements

/-!
# The gateway programs

`run_gateway_backfill` of the staker and the two balance endpoints of the API, as processes over
the statements of `Gateway.Statements`.  A call that fails ends a program wherever it stands:
in a pool that is a `stop`.

The gateway pass walks flows, claimants and balances in this order, each behind its own
checkpoint, which moves to the block of the last candidate once all candidates of the batch
are written.  The endpoints answer from a stored snapshot, else from the latest touch, else from
a direct read, and store what they read.
-/

set_option autoImplicit false

namespace ProtocolExplorer.Gateway

open ProtocolExplorer.Lib
open ProtocolExplorer.Store

/-- A program over the gateway statements. -/
abbrev Program (α : Type) := Process GatewayOp GatewayOp.Answer α

/-- The program of a single statement. -/
def ask (op : GatewayOp) : Program op.Answer := Process.statement op

/-! ## The gateway pass -/

structure GatewaySnapshot where
  deposit : Numeric
  reserveFundsRemaining : Numeric
  reserveClaimedInCurrentRound : Numeric
  withdrawRound : ℤ
  unlockInProgress : Bool
  deriving DecidableEq

/-- What is stored of the two answers about a sender; a withdraw round that is no `i64` is
stored as `i64::MAX`. -/
def snapshotOf (sender : SenderInfo) (unlock : Bool) : GatewaySnapshot where
  deposit := u256ToDecimal sender.deposit
  reserveFundsRemaining := u256ToDecimal sender.fundsRemaining
  reserveClaimedInCurrentRound := u256ToDecimal sender.claimedInCurrentRound
  withdrawRound := min sender.withdrawRound i64Max
  unlockInProgress := unlock

def getSenderInfo (gateway : Address) (block : ℤ) : Program SenderInfo :=
  ask (.brokerCall (.getSenderInfo gateway) block)

def isUnlockInProgress (gateway : Address) (block : ℤ) : Program Bool :=
  ask (.brokerCall (.isUnlockInProgress gateway) block)

def claimableReserve (gateway claimant : Address) (block : ℤ) : Program ℕ :=
  ask (.brokerCall (.claimableReserve gateway claimant) block)

def claimedReserve (gateway claimant : Address) (block : ℤ) : Program ℕ :=
  ask (.brokerCall (.claimedReserve gateway claimant) block)

/-- `read_gateway_state`. -/
def readGatewayState (gateway : Address) (block : ℤ) : Program GatewaySnapshot := do
  let sender ← getSenderInfo gateway block
  let unlock ← isUnlockInProgress gateway block
  return snapshotOf sender unlock

/-- The row a snapshot is stored as. -/
def GatewaySnapshot.row (snapshot : GatewaySnapshot) (blockTimestamp : Timestamp)
    (blockHash : BlockHash) (triggeringEventId : Option ℤ) : GatewayBalance where
  blockTimestamp := blockTimestamp
  blockHash := blockHash
  deposit := snapshot.deposit
  reserveFundsRemaining := snapshot.reserveFundsRemaining
  reserveClaimedInCurrentRound := snapshot.reserveClaimedInCurrentRound
  withdrawRound := snapshot.withdrawRound
  unlockInProgress := snapshot.unlockInProgress
  source := sourceRpcReconciled
  triggeringEventId := triggeringEventId

/-- One iteration over the balance candidates. -/
def snapshotBalance (candidate : GatewayCandidate) : Program PUnit := do
  let snapshot ← readGatewayState candidate.gatewayAddress candidate.blockNumber
  ask (.upsertGatewayBalance candidate.gatewayAddress candidate.blockNumber
    (snapshot.row candidate.blockTimestamp candidate.blockHash (some candidate.eventId)))

/-- One iteration over the claimant candidates. -/
def snapshotClaimant (candidate : GatewayFlowCandidate) : Program PUnit :=
  match candidate.claimantAddress with
  | none => pure ⟨⟩
  | some claimant => do
      let claimable ← claimableReserve candidate.gatewayAddress claimant candidate.blockNumber
      let claimed ← claimedReserve candidate.gatewayAddress claimant candidate.blockNumber
      ask (.upsertGatewayClaimant candidate.gatewayAddress claimant candidate.blockNumber
        { blockTimestamp := candidate.blockTimestamp
          blockHash := candidate.blockHash
          claimableReserve := u256ToDecimal claimable
          claimedReserve := u256ToDecimal claimed
          source := sourceRpcReconciled
          triggeringEventId := some candidate.eventId })

/-- Advance a checkpoint to the block that was touched last, if any was. -/
def advanceTo (axis : GatewayAxis) : Option ℤ → Program PUnit
  | none => pure ⟨⟩
  | some block => ask (.advanceGatewayCheckpoint axis block)

/-- `GATEWAY_FLOW_BATCH_LIMIT` and the two other limits. -/
structure BatchLimits where
  flow : ℕ
  claimant : ℕ
  balance : ℕ
  deriving DecidableEq

/-- The limits of the source. -/
def batchLimits : BatchLimits := ⟨2000, 1000, 250⟩

/-- The first loop of a pass, over the flow candidates. -/
def walkFlows (candidates : List GatewayFlowCandidate) : Program PUnit := do
  candidates.forM fun candidate => ask (.upsertGatewayFlow candidate)
  advanceTo .flow (candidates.getLast?.map (·.blockNumber))

/-- The second loop, over the claimant candidates. -/
def walkClaimants (candidates : List GatewayFlowCandidate) : Program PUnit := do
  candidates.forM snapshotClaimant
  advanceTo .claimant
    ((candidates.filter (·.claimantAddress.isSome)).getLast?.map (·.blockNumber))

/-- The third loop, over the balance candidates; without a candidate it repeats the checkpoint
that was loaded. -/
def walkBalances (loaded : Option ℤ) (candidates : List GatewayCandidate) : Program PUnit := do
  candidates.forM snapshotBalance
  advanceTo .balance ((candidates.getLast?.map (·.blockNumber)).or loaded)

/-- `run_gateway_backfill`. -/
def runGatewayBackfill (limits : BatchLimits) (includeTentative : Bool) : Program PUnit := do
  let flowCheckpoint : Option ℤ ← ask (.loadGatewayCheckpoint .flow)
  let claimantCheckpoint : Option ℤ ← ask (.loadGatewayCheckpoint .claimant)
  let balanceCheckpoint : Option ℤ ← ask (.loadGatewayCheckpoint .balance)
  let flowCandidates : List GatewayFlowCandidate ←
    ask (.fetchFlowCandidatesAfter includeTentative flowCheckpoint limits.flow)
  let claimantCandidates : List GatewayFlowCandidate ←
    ask (.fetchClaimantCandidatesAfter includeTentative claimantCheckpoint limits.claimant)
  let balanceCandidates : List GatewayCandidate ←
    ask (.fetchBalanceCandidatesAfter includeTentative balanceCheckpoint limits.balance)
  walkFlows flowCandidates
  walkClaimants claimantCandidates
  walkBalances balanceCheckpoint balanceCandidates

/-- The statements of one walk of a pass. -/
def walkOp : GatewayAxis → GatewayOp → Prop
  | axis, .advanceGatewayCheckpoint other _ => other = axis
  | .flow, .upsertGatewayFlow _ => True
  | .claimant, .brokerCall .. => True
  | .claimant, .upsertGatewayClaimant .. => True
  | .balance, .brokerCall .. => True
  | .balance, .upsertGatewayBalance .. => True
  | _, _ => False

section Uses

open Process

theorem uses_advanceTo (axis : GatewayAxis) (block : Option ℤ) :
    (advanceTo axis block).Uses (walkOp axis) := by
  cases block with
  | none => trivial
  | some block => exact uses_statement rfl

theorem uses_walkFlows (candidates : List GatewayFlowCandidate) :
    (walkFlows candidates).Uses (walkOp .flow) :=
  uses_bind (uses_forM fun _ _ => uses_statement trivial) fun _ => uses_advanceTo ..

theorem uses_snapshotClaimant (c : GatewayFlowCandidate) :
    (snapshotClaimant c).Uses (walkOp .claimant) := by
  unfold snapshotClaimant
  split
  · trivial
  · exact uses_bind (uses_statement trivial) fun _ => uses_bind (uses_statement trivial) fun _ =>
      uses_statement trivial

theorem uses_walkClaimants (candidates : List GatewayFlowCandidate) :
    (walkClaimants candidates).Uses (walkOp .claimant) :=
  uses_bind (uses_forM fun c _ => uses_snapshotClaimant c) fun _ => uses_advanceTo ..

theorem uses_walkBalances (loaded : Option ℤ) (candidates : List GatewayCandidate) :
    (walkBalances loaded candidates).Uses (walkOp .balance) :=
  uses_bind (uses_forM fun _ _ => ⟨trivial, fun _ => ⟨trivial, fun _ => uses_statement trivial⟩⟩)
    fun _ => uses_advanceTo ..

end Uses

/-! ## The balance endpoints -/

/-- `load_gateway_balance_from_rpc`. -/
def loadGatewayBalanceFromRpc (gateway : Address) (block : ℤ) : Program GatewayBalanceRow := do
  let sender ← getSenderInfo gateway block
  let unlock ← isUnlockInProgress gateway block
  return {
    gatewayAddress := gateway
    blockNumber := block
    deposit := u256ToDecimal sender.deposit
    reserveFundsRemaining := u256ToDecimal sender.fundsRemaining
    reserveClaimedInCurrentRound := u256ToDecimal sender.claimedInCurrentRound
    withdrawRound := sender.withdrawRound
    unlockInProgress := unlock
    source := "ticketbroker_getSenderInfo_rpc" }

/-- The instant and the hash of a block, from two reads of its header. -/
def readHeader (block : ℤ) : Program (Timestamp × BlockHash) := do
  let first : Timestamp × BlockHash ← ask (.ethGetBlockHeader block)
  let second : Timestamp × BlockHash ← ask (.ethGetBlockHeader block)
  return (first.1, second.2)

/-- The insert of `persist_gateway_balance_snapshot`; `none` when the withdraw round is no
`i64`. -/
def storeSnapshot (row : GatewayBalanceRow) (triggeringEventId : Option ℤ)
    (header : Timestamp × BlockHash) : Program (Option GatewayBalanceRow) := do
  if i64Max < row.withdrawRound then return none
  let stored : GatewayBalance :=
    { blockTimestamp := header.1
      blockHash := header.2
      deposit := row.deposit
      reserveFundsRemaining := row.reserveFundsRemaining
      reserveClaimedInCurrentRound := row.reserveClaimedInCurrentRound
      withdrawRound := row.withdrawRound
      unlockInProgress := row.unlockInProgress
      source := sourceRpcReconciled
      triggeringEventId }
  let _ : PUnit ← ask (.upsertGatewayBalance row.gatewayAddress row.blockNumber stored)
  return some { row with source := "rpc_reconciled_materialized" }

/-- `persist_gateway_balance_snapshot`. -/
def persistGatewayBalanceSnapshot (row : GatewayBalanceRow) (touch : Option RawEvent) :
    Program (Option GatewayBalanceRow) :=
  match touch with
  | some touch => storeSnapshot row (some touch.id) (touch.blockTimestamp, touch.blockHash)
  | none => do
      let header ← readHeader row.blockNumber
      storeSnapshot row none header

/-- A direct read at a block, which is then stored. -/
def readAndPersist (gateway : Address) (block : ℤ) (touch : Option RawEvent) :
    Program (Option GatewayBalanceRow) := do
  let row ← loadGatewayBalanceFromRpc gateway block
  persistGatewayBalanceSnapshot row touch

/-- `hydrate_gateway_balance_at_latest_touch`; the outer `none` says that there is no touch. -/
def hydrateGatewayBalanceAtLatestTouch (gateway : Address) (bound : Option ℤ) :
    Program (Option (Option GatewayBalanceRow)) := do
  let touch : Option RawEvent ← ask (.loadGatewayLatestTouch gateway bound)
  match touch with
  | none => return none
  | some touch =>
      let stored : Option GatewayBalanceRow ←
        ask (.loadGatewayBalanceMaterialized gateway (some touch.blockNumber))
      match stored with
      | some row => return some (some row)
      | none => some <$> readAndPersist gateway touch.blockNumber (some touch)

/-- `balance_latest`; `none` is an error response. -/
def balanceLatest (gateway : Address) : Program (Option GatewayBalanceRow) := do
  let stored : Option GatewayBalanceRow ←
    ask (.loadGatewayBalanceMaterialized gateway none)
  match stored with
  | some row => return some row
  | none =>
      match ← hydrateGatewayBalanceAtLatestTouch gateway none with
      | some answer => return answer
      | none =>
          let headBlock : ℤ ← ask .ethBlockNumber
          readAndPersist gateway headBlock none

/-- `balance_at_block`; `none` is an error response. -/
def balanceAtBlock (gateway : Address) (block : ℤ) : Program (Option GatewayBalanceRow) := do
  if block < 0 then return none
  let stored : Option GatewayBalanceRow ←
    ask (.loadGatewayBalanceMaterialized gateway (some block))
  match stored with
  | some row => return some row
  | none =>
      match ← hydrateGatewayBalanceAtLatestTouch gateway (some block) with
      | some answer => return answer
      | none => readAndPersist gateway block none

/-! ## What a request performs -/

/-- The statements of a request about a gateway. -/
def requestOp (gateway : Address) : GatewayOp → Prop
  | .upsertGatewayBalance other _ _ => other = gateway
  | .loadGatewayBalanceMaterialized .. => True
  | .loadGatewayLatestTouch .. => True
  | .brokerCall .. => True
  | .ethBlockNumber => True
  | .ethGetBlockHeader _ => True
  | _ => False

section Uses

open Process

variable {gateway : Address}

theorem uses_storeSnapshot {row : GatewayBalanceRow} (triggeringEventId : Option ℤ)
    (header : Timestamp × BlockHash) (own : row.gatewayAddress = gateway) :
    (storeSnapshot row triggeringEventId header).Uses (requestOp gateway) := by
  unfold storeSnapshot
  split
  · exact uses_pure _
  · exact ⟨own, fun _ => trivial⟩

theorem uses_persistGatewayBalanceSnapshot {row : GatewayBalanceRow} (touch : Option RawEvent)
    (own : row.gatewayAddress = gateway) :
    (persistGatewayBalanceSnapshot row touch).Uses (requestOp gateway) := by
  cases touch with
  | some touch => exact uses_storeSnapshot _ _ own
  | none => exact ⟨trivial, fun _ => ⟨trivial, fun _ => uses_storeSnapshot _ _ own⟩⟩

theorem uses_readAndPersist (block : ℤ) (touch : Option RawEvent) :
    (readAndPersist gateway block touch).Uses (requestOp gateway) :=
  ⟨trivial, fun _ => ⟨trivial, fun _ => uses_persistGatewayBalanceSnapshot touch rfl⟩⟩

theorem uses_hydrate (bound : Option ℤ) :
    (hydrateGatewayBalanceAtLatestTouch gateway bound).Uses (requestOp gateway) := by
  refine uses_bind (uses_statement trivial) fun touch => ?_
  cases touch with
  | none => exact uses_pure _
  | some touch =>
      refine uses_bind (uses_statement trivial) fun stored => ?_
      cases stored with
      | some row => exact uses_pure _
      | none => exact uses_map (uses_readAndPersist touch.blockNumber (some touch))

theorem uses_balanceLatest : (balanceLatest gateway).Uses (requestOp gateway) := by
  refine uses_bind (uses_statement trivial) fun stored => ?_
  cases stored with
  | some row => exact uses_pure _
  | none =>
      refine uses_bind (uses_hydrate none) fun hydrated => ?_
      cases hydrated with
      | some answer => exact uses_pure _
      | none => exact uses_bind (uses_statement trivial) fun head => uses_readAndPersist head none

theorem uses_balanceAtBlock (block : ℤ) :
    (balanceAtBlock gateway block).Uses (requestOp gateway) := by
  unfold balanceAtBlock
  split
  · exact uses_pure _
  · refine uses_bind (uses_statement trivial) fun stored => ?_
    cases stored with
    | some row => exact uses_pure _
    | none =>
        refine uses_bind (uses_hydrate (some block)) fun hydrated => ?_
        cases hydrated with
        | some answer => exact uses_pure _
        | none => exact uses_readAndPersist block none

end Uses

/-! ## The system -/

/-- What is started: a pass, also with other limits, or a request. -/
inductive Task where
  | gatewayBackfill (limits : BatchLimits) (includeTentative : Bool)
  | balanceLatest (gateway : Address)
  | balanceAtBlock (gateway : Address) (block : ℤ)

/-- The program of a task; a request ends with its answer sent. -/
def Task.program : Task → Program PUnit
  | gatewayBackfill limits includeTentative => runGatewayBackfill limits includeTentative
  | balanceLatest gateway => (fun _ => ⟨⟩) <$> Gateway.balanceLatest gateway
  | balanceAtBlock gateway block => (fun _ => ⟨⟩) <$> Gateway.balanceAtBlock gateway block

/-- Passes and requests, interleaved with what happens around them. -/
def workload (blocks : BlockHash → Indexer.Block)
    (broker : BlockHash → (call : BrokerCall) → call.Answer) :
    Workload World World.Event Task GatewayOp GatewayOp.Answer where
  occur := World.occur
  act := World.act blocks broker
  program := Task.program

/-- The state of the system. -/
abbrev GatewayPool := Pool World GatewayOp GatewayOp.Answer

def GatewayPool.start : GatewayPool := ⟨.start, []⟩

end ProtocolExplorer.Gateway
