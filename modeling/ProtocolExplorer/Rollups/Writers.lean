import ProtocolExplorer.Rollups.Daily

/-!
# The four rollup writers

`event_metrics_daily` and `orch_payouts_daily`, `orch_rewards_daily`, `tickets_daily` as
instances of `DailyRollup`.  The first three join `event_valuations`, so an event has one
source row per version; the tickets rollup has one row per redemption.  Payouts and tickets
also count distinct parties, and payouts and rewards split an amount by the share that was
in force at the event's position.
-/

set_option autoImplicit false

namespace ProtocolExplorer.Rollups

open ProtocolExplorer.Lib
open ProtocolExplorer.Store

/-! ## Shares in force at a position -/

/-- The canonical `TranscoderUpdate`s of an orchestrator, in chain order. -/
def transcoderUpdates (tables : SourceTables) (orchestrator : Address) : List RawEvent :=
  orderBy RawEvent.position (tables.rawProtocolEvents.filter fun e =>
    e.isCanonical && decide (e.contractName = .BondingManager) &&
      decide (e.eventName = .TranscoderUpdate) && decide (e.toAddress = some orchestrator))

/-- The raw percentage of an orchestrator at a position: that of the last update at or before
it, `0` when there is none. -/
def rawPercentAt (field : Decoded → Option ℕ) (tables : SourceTables) (orchestrator : Address)
    (position : Lex (ℤ × ℕ)) : ℕ :=
  (((transcoderUpdates tables orchestrator).takeWhile fun e =>
    decide (e.position ≤ position)).getLast?.bind fun e => field e.decoded).getD 0

/-- `fee_share_raw_at_block`. -/
def feeShareRawAtBlock := rawPercentAt Decoded.feeShare

/-- `reward_cut_raw_at_block`. -/
def rewardCutRawAtBlock := rawPercentAt Decoded.rewardCut

/-- `commission_from_fee_share`. -/
def commissionFromFeeShare (amount : ℚ) (feeShareRaw : ℕ) : ℚ :=
  amount * ((1000000 - feeShareRaw) / 1000000)

/-- `share_from_raw_percent`. -/
def shareFromRawPercent (amount : ℚ) (rawPercent : ℕ) : ℚ := amount * rawPercent / 1000000

/-! ## Event metrics -/

structure EventValuationRow where
  eventId : ℤ
  blockTimestamp : Timestamp
  contractName : ContractKind
  eventName : EventName
  asset : Asset
  valuationVersion : Version
  amountNative : Option Numeric
  amountUsd : Option Numeric
  deriving DecidableEq

def EventValuationRow.key (row : EventValuationRow) : EventMetricsKey where
  dayUtc := dayUtc row.blockTimestamp
  contractName := row.contractName
  eventName := row.eventName
  asset := row.asset
  valuationVersion := row.valuationVersion

/-- The rows of `fetch_valuation_rows` for one event. -/
def eventValuationRows (includeTentative : Bool) (tables : SourceTables) (e : RawEvent) :
    List EventValuationRow :=
  match e.asset with
  | none => []
  | some asset =>
      if e.isValuable && e.eligible includeTentative then
        (tables.valuationsOf e.id asset).map fun (version, v) =>
          { eventId := e.id
            blockTimestamp := e.blockTimestamp
            contractName := e.contractName
            eventName := e.eventName
            asset
            valuationVersion := version
            amountNative := some v.amountNative
            amountUsd := v.amountUsd }
      else []

theorem eventValuationRows_of_tentative {tables : SourceTables} {e : RawEvent}
    (tentative : e.finality = .tentative) : eventValuationRows false tables e = [] := by
  unfold eventValuationRows
  cases e.asset <;> simp [RawEvent.eligible, tentative]

def eventMetrics :
    DailyRollup EventValuationRow EventMetricsKey Empty EventMetricsSums EventMetricsSums where
  name := .eventMetricsDaily
  table db := db.eventMetricsDaily
  withTable rows db := { db with eventMetricsDaily := rows }
  rowsOf := eventValuationRows
  eventId := EventValuationRow.eventId
  keyOf := EventValuationRow.key
  labelsOf _ := []
  prior _ _ label := nomatch label
  sums _ row _ :=
    ⟨1, row.amountNative.getD 0, row.amountUsd.getD 0, if row.amountUsd.isSome then 1 else 0⟩
  store := id
  count := ⟨⟨EventMetricsSums.eventCount, rfl⟩, fun _ _ => rfl⟩
  storedCount := ⟨⟨EventMetricsSums.eventCount, rfl⟩, fun _ _ => rfl⟩
  concerned e := e.isValuable
  existingCandidate _ _ := true
  currentKeys includeTentative tables e :=
    (eventValuationRows includeTentative tables e).map EventValuationRow.key
  eventId_of_mem {_ _ e _} member := by
    unfold eventValuationRows at member
    cases named : e.asset with
    | none => simp [named] at member
    | some asset =>
        simp only [named] at member
        split at member
        · obtain ⟨_, _, rfl⟩ := List.mem_map.mp member
          rfl
        · cases member
  keyOf_of_label inA _ := absurd inA List.not_mem_nil
  prior_of_mem _ _ inEarlier _ := absurd inEarlier List.not_mem_nil
  count_sums _ _ _ := rfl
  storedCount_store _ := rfl
  table_withTable _ _ := rfl
  withTable_table _ := rfl
  withTable_withTable _ _ _ := rfl
  table_congr _ _ := rfl
  sourceTables_withTable _ _ := rfl
  checkpoints_withTable _ _ := rfl
  mutations_withTable _ _ := rfl

/-! ## Orchestrator payouts -/

structure TicketEventRow where
  eventId : ℤ
  position : Lex (ℤ × ℕ)
  blockTimestamp : Timestamp
  gatewayAddress : Address
  orchestratorAddress : Address
  valuationVersion : Version
  broadcasterKind : BroadcasterKind
  faceValueNative : Numeric
  faceValueUsd : Option Numeric
  deriving DecidableEq

def TicketEventRow.key (row : TicketEventRow) : PayoutKey where
  dayUtc := dayUtc row.blockTimestamp
  orchestratorAddress := row.orchestratorAddress
  valuationVersion := row.valuationVersion
  broadcasterKind := row.broadcasterKind

/-- `GatewaySeenKey`. -/
abbrev GatewaySeenKey := PayoutKey × Address

/-- The rows of `fetch_ticket_rows` for one event. -/
def ticketEventRows (includeTentative : Bool) (tables : SourceTables) (e : RawEvent) :
    List TicketEventRow :=
  match e.fromAddress, e.toAddress with
  | some gateway, some orchestrator =>
      if decide (e.eventName = .WinningTicketRedeemed) && e.eligible includeTentative then
        (tables.valuationsOf e.id .ETH).map fun (version, v) =>
          { eventId := e.id
            position := e.position
            blockTimestamp := e.blockTimestamp
            gatewayAddress := gateway
            orchestratorAddress := orchestrator
            valuationVersion := version
            broadcasterKind := tables.broadcasterKind (some gateway)
            faceValueNative := v.amountNative
            faceValueUsd := v.amountUsd }
      else []
  | _, _ => []

/-- `prior_gateway_seen`: any canonical valued ticket of the day with a smaller id. -/
def priorGatewaySeen (tables : SourceTables) (row : TicketEventRow) (seen : GatewaySeenKey) :
    Bool :=
  tables.rawProtocolEvents.any fun e =>
    decide (e.eventName = .WinningTicketRedeemed) && e.isCanonical && decide (e.id < row.eventId) &&
      decide (e.fromAddress = some seen.2) &&
      decide (e.toAddress = some seen.1.orchestratorAddress) &&
      decide (dayUtc e.blockTimestamp = seen.1.dayUtc) &&
      decide ((e.id, seen.1.valuationVersion, Asset.ETH) ∈ tables.eventValuations.keys)

theorem mem_ticketEventRows {includeTentative : Bool} {tables : SourceTables} {e : RawEvent}
    {row : TicketEventRow} (member : row ∈ ticketEventRows includeTentative tables e) :
    e.fromAddress = some row.gatewayAddress ∧ e.toAddress = some row.orchestratorAddress ∧
      e.eventName = .WinningTicketRedeemed ∧ e.eligible includeTentative = true ∧
      row.eventId = e.id ∧ row.blockTimestamp = e.blockTimestamp ∧
      (e.id, row.valuationVersion, Asset.ETH) ∈ tables.eventValuations := by
  unfold ticketEventRows at member
  split at member
  · next gateway orchestrator sender receiver =>
      split at member
      · next passes =>
          obtain ⟨redeemed, eligible⟩ := Bool.and_eq_true _ _ ▸ passes
          obtain ⟨⟨version, v⟩, valued, rfl⟩ := List.mem_map.mp member
          exact ⟨sender, receiver, of_decide_eq_true redeemed, eligible, rfl, rfl,
            SourceTables.mem_of_mem_valuationsOf valued⟩
      · cases member
  · cases member

theorem ticketEventRows_of_tentative {tables : SourceTables} {e : RawEvent}
    (tentative : e.finality = .tentative) : ticketEventRows false tables e = [] := by
  unfold ticketEventRows
  cases e.fromAddress <;> cases e.toAddress <;> simp [RawEvent.eligible, tentative]

theorem priorGatewaySeen_of_mem {includeTentative : Bool} {tables : SourceTables} {e : RawEvent}
    {earlier row : TicketEventRow} {label : GatewaySeenKey} (stored : e ∈ tables.rawProtocolEvents)
    (member : earlier ∈ ticketEventRows includeTentative tables e)
    (labelled : label ∈ [(earlier.key, earlier.gatewayAddress)]) (before : e.id < row.eventId) :
    priorGatewaySeen tables row label = true := by
  obtain rfl := List.mem_singleton.mp labelled
  obtain ⟨sender, receiver, redeemed, eligible, _, timestamp, valued⟩ := mem_ticketEventRows member
  have canonical : e.isCanonical = true := (Bool.and_eq_true _ _ ▸ eligible).1
  refine List.any_eq_true.mpr ⟨e, stored, ?_⟩
  simp [redeemed, canonical, before, sender, receiver, TicketEventRow.key, timestamp,
    Finmap.mem_keys.mpr valued]

/-- The summands of a ticket: its face value split into commission and delegators' share. -/
def payoutSums (tables : SourceTables) (row : TicketEventRow) (new : List GatewaySeenKey) :
    PayoutSums ℚ :=
  let feeShareRaw := feeShareRawAtBlock tables row.orchestratorAddress row.position
  let native := row.faceValueNative.toRat
  let commissionNative := commissionFromFeeShare native feeShareRaw
  let usd := (row.faceValueUsd.map Decimal.toRat).getD 0
  let commissionUsd := commissionFromFeeShare usd feeShareRaw
  { ticketCount := 1
    sumFaceValueNative := native
    sumFaceValueUsd := usd
    sumCommissionNative := commissionNative
    sumCommissionUsd := commissionUsd
    sumDelegatorsShareNative := native - commissionNative
    sumDelegatorsShareUsd := usd - commissionUsd
    distinctGateways := new.length
    usdRowsPriced := if row.faceValueUsd.isSome then 1 else 0 }

def orchPayouts :
    DailyRollup TicketEventRow PayoutKey GatewaySeenKey (PayoutSums ℚ) (PayoutSums Numeric) where
  name := .orchPayoutsDaily
  table db := db.orchPayoutsDaily
  withTable rows db := { db with orchPayoutsDaily := rows }
  rowsOf := ticketEventRows
  eventId := TicketEventRow.eventId
  keyOf := TicketEventRow.key
  labelsOf row := [(row.key, row.gatewayAddress)]
  prior := priorGatewaySeen
  sums := payoutSums
  store := PayoutSums.map Decimal.ofRat
  count := ⟨⟨PayoutSums.ticketCount, rfl⟩, fun _ _ => rfl⟩
  storedCount := ⟨⟨PayoutSums.ticketCount, rfl⟩, fun _ _ => rfl⟩
  concerned e := decide (e.eventName = .WinningTicketRedeemed) && e.toAddress.isSome
  existingCandidate e key := decide (e.toAddress = some key.orchestratorAddress)
  -- unlike the fetch, this query does not ask for a sender
  currentKeys includeTentative tables e :=
    match e.toAddress with
    | none => []
    | some orchestrator =>
        if decide (e.eventName = .WinningTicketRedeemed) && e.eligible includeTentative then
          (tables.valuationsOf e.id .ETH).map fun (version, _) =>
            { dayUtc := dayUtc e.blockTimestamp
              orchestratorAddress := orchestrator
              valuationVersion := version
              broadcasterKind := tables.broadcasterKind e.fromAddress }
        else []
  eventId_of_mem {_ _ _ _} member := by
    unfold ticketEventRows at member
    split at member
    · split at member
      · obtain ⟨_, _, rfl⟩ := List.mem_map.mp member
        rfl
      · cases member
    · cases member
  keyOf_of_label inA inB := by
    rw [List.mem_singleton] at inA inB
    exact (Prod.mk.inj (inA.symm.trans inB)).1
  prior_of_mem := priorGatewaySeen_of_mem
  count_sums _ _ _ := rfl
  storedCount_store _ := rfl
  table_withTable _ _ := rfl
  withTable_table _ := rfl
  withTable_withTable _ _ _ := rfl
  table_congr _ _ := rfl
  sourceTables_withTable _ _ := rfl
  checkpoints_withTable _ _ := rfl
  mutations_withTable _ _ := rfl

/-! ## Orchestrator rewards -/

structure RewardEventRow where
  eventId : ℤ
  position : Lex (ℤ × ℕ)
  blockTimestamp : Timestamp
  orchestratorAddress : Address
  valuationVersion : Version
  totalTokensNative : Numeric
  totalTokensUsd : Option Numeric
  deriving DecidableEq

def RewardEventRow.key (row : RewardEventRow) : RewardKey where
  dayUtc := dayUtc row.blockTimestamp
  orchestratorAddress := row.orchestratorAddress
  valuationVersion := row.valuationVersion

/-- The rows of `fetch_reward_rows` for one event. -/
def rewardEventRows (includeTentative : Bool) (tables : SourceTables) (e : RawEvent) :
    List RewardEventRow :=
  match e.toAddress with
  | none => []
  | some orchestrator =>
      if decide (e.eventName = .Reward) && e.eligible includeTentative then
        (tables.valuationsOf e.id .LPT).map fun (version, v) =>
          { eventId := e.id
            position := e.position
            blockTimestamp := e.blockTimestamp
            orchestratorAddress := orchestrator
            valuationVersion := version
            totalTokensNative := v.amountNative
            totalTokensUsd := v.amountUsd }
      else []

/-- The summands of a reward: the total split into the orchestrator's and the delegators'
tokens. -/
def rewardSums (tables : SourceTables) (row : RewardEventRow) : RewardSums ℚ :=
  let rewardCutRaw := rewardCutRawAtBlock tables row.orchestratorAddress row.position
  let native := row.totalTokensNative.toRat
  let orchTokens := shareFromRawPercent native rewardCutRaw
  let usd := (row.totalTokensUsd.map Decimal.toRat).getD 0
  let orchTokensUsd := shareFromRawPercent usd rewardCutRaw
  { rewardEventCount := 1
    sumTotalTokens := native
    sumTotalTokensUsd := usd
    sumOrchTokens := orchTokens
    sumOrchTokensUsd := orchTokensUsd
    sumDelegatorsTokens := native - orchTokens
    sumDelegatorsTokensUsd := usd - orchTokensUsd
    usdRowsPriced := if row.totalTokensUsd.isSome then 1 else 0 }

def orchRewards :
    DailyRollup RewardEventRow RewardKey Empty (RewardSums ℚ) (RewardSums Numeric) where
  name := .orchRewardsDaily
  table db := db.orchRewardsDaily
  withTable rows db := { db with orchRewardsDaily := rows }
  rowsOf := rewardEventRows
  eventId := RewardEventRow.eventId
  keyOf := RewardEventRow.key
  labelsOf _ := []
  prior _ _ label := nomatch label
  sums tables row _ := rewardSums tables row
  store := RewardSums.map Decimal.ofRat
  count := ⟨⟨RewardSums.rewardEventCount, rfl⟩, fun _ _ => rfl⟩
  storedCount := ⟨⟨RewardSums.rewardEventCount, rfl⟩, fun _ _ => rfl⟩
  concerned e := decide (e.eventName = .Reward) && e.toAddress.isSome
  existingCandidate e key := decide (e.toAddress = some key.orchestratorAddress)
  currentKeys includeTentative tables e :=
    (rewardEventRows includeTentative tables e).map RewardEventRow.key
  eventId_of_mem {_ _ _ _} member := by
    unfold rewardEventRows at member
    split at member
    · cases member
    · split at member
      · obtain ⟨_, _, rfl⟩ := List.mem_map.mp member
        rfl
      · cases member
  keyOf_of_label inA _ := absurd inA List.not_mem_nil
  prior_of_mem _ _ inEarlier _ := absurd inEarlier List.not_mem_nil
  count_sums _ _ _ := rfl
  storedCount_store _ := rfl
  table_withTable _ _ := rfl
  withTable_table _ := rfl
  withTable_withTable _ _ _ := rfl
  table_congr _ _ := rfl
  sourceTables_withTable _ _ := rfl
  checkpoints_withTable _ _ := rfl
  mutations_withTable _ _ := rfl

/-! ## Tickets -/

structure TicketRow where
  eventId : ℤ
  blockTimestamp : Timestamp
  broadcasterKind : BroadcasterKind
  gatewayAddress : Address
  orchestratorAddress : Address
  deriving DecidableEq

def TicketRow.key (row : TicketRow) : TicketKey where
  dayUtc := dayUtc row.blockTimestamp
  broadcasterKind := row.broadcasterKind

/-- A party that is counted distinct. -/
inductive TicketParty where
  | gateway (address : Address)
  | orchestrator (address : Address)
  deriving DecidableEq

def TicketParty.isGateway : TicketParty → Bool
  | .gateway _ => true
  | .orchestrator _ => false

/-- The row of `fetch_ticket_rows` of the tickets rollup for one event. -/
def ticketRows (includeTentative : Bool) (tables : SourceTables) (e : RawEvent) :
    List TicketRow :=
  match e.fromAddress, e.toAddress with
  | some gateway, some orchestrator =>
      if decide (e.eventName = .WinningTicketRedeemed) && e.eligible includeTentative then
        [{ eventId := e.id
           blockTimestamp := e.blockTimestamp
           broadcasterKind := tables.broadcasterKind (some gateway)
           gatewayAddress := gateway
           orchestratorAddress := orchestrator }]
      else []
  | _, _ => []

/-- `prior_gateway_seen` and `prior_orchestrator_seen`. -/
def priorPartySeen (tables : SourceTables) (row : TicketRow) (seen : TicketKey × TicketParty) :
    Bool :=
  tables.rawProtocolEvents.any fun e =>
    decide (e.eventName = .WinningTicketRedeemed) && e.isCanonical && decide (e.id < row.eventId) &&
      decide (dayUtc e.blockTimestamp = seen.1.dayUtc) &&
      decide (tables.broadcasterKind e.fromAddress = seen.1.broadcasterKind) &&
      match seen.2 with
      | .gateway address => decide (e.fromAddress = some address)
      | .orchestrator address => decide (e.toAddress = some address)

theorem priorPartySeen_of_mem {includeTentative : Bool} {tables : SourceTables} {e : RawEvent}
    {earlier row : TicketRow} {label : TicketKey × TicketParty}
    (stored : e ∈ tables.rawProtocolEvents) (member : earlier ∈ ticketRows includeTentative tables e)
    (labelled : label ∈ [(earlier.key, .gateway earlier.gatewayAddress),
      (earlier.key, .orchestrator earlier.orchestratorAddress)]) (before : e.id < row.eventId) :
    priorPartySeen tables row label = true := by
  refine List.any_eq_true.mpr ⟨e, stored, ?_⟩
  unfold ticketRows at member
  split at member
  · next gateway orchestrator sender receiver =>
      split at member
      · next passes =>
          obtain ⟨redeemed, eligible⟩ := Bool.and_eq_true _ _ ▸ passes
          have canonical : e.isCanonical = true := (Bool.and_eq_true _ _ ▸ eligible).1
          obtain rfl := List.mem_singleton.mp member
          rcases List.mem_cons.mp labelled with rfl | second
          · simp [of_decide_eq_true redeemed, canonical, before, sender, TicketRow.key]
          · obtain rfl := List.mem_singleton.mp second
            simp [of_decide_eq_true redeemed, canonical, before, sender, receiver, TicketRow.key]
      · cases member
  · cases member

def tickets :
    DailyRollup TicketRow TicketKey (TicketKey × TicketParty) TicketSums TicketSums where
  name := .ticketsDaily
  table db := db.ticketsDaily
  withTable rows db := { db with ticketsDaily := rows }
  rowsOf := ticketRows
  eventId := TicketRow.eventId
  keyOf := TicketRow.key
  labelsOf row :=
    [(row.key, .gateway row.gatewayAddress), (row.key, .orchestrator row.orchestratorAddress)]
  prior := priorPartySeen
  sums _ _ new :=
    { ticketCount := 1
      distinctOrchestrators := (new.filter fun label => !label.2.isGateway).length
      distinctGateways := (new.filter fun label => label.2.isGateway).length }
  store := id
  count := ⟨⟨TicketSums.ticketCount, rfl⟩, fun _ _ => rfl⟩
  storedCount := ⟨⟨TicketSums.ticketCount, rfl⟩, fun _ _ => rfl⟩
  concerned e := decide (e.eventName = .WinningTicketRedeemed)
  existingCandidate _ _ := true
  currentKeys includeTentative tables e := (ticketRows includeTentative tables e).map TicketRow.key
  eventId_of_mem {_ _ _ _} member := by
    unfold ticketRows at member
    split at member
    · split at member
      · obtain rfl := List.mem_singleton.mp member
        rfl
      · cases member
    · cases member
  keyOf_of_label inA inB := by
    have ofLabel : ∀ {row : TicketRow} {label : TicketKey × TicketParty},
        label ∈ [(row.key, TicketParty.gateway row.gatewayAddress),
          (row.key, .orchestrator row.orchestratorAddress)] → label.1 = row.key := by
      intro row label labelled
      rcases List.mem_cons.mp labelled with rfl | second
      · rfl
      · rw [List.mem_singleton.mp second]
    exact (ofLabel inA).symm.trans (ofLabel inB)
  prior_of_mem := priorPartySeen_of_mem
  count_sums _ _ _ := rfl
  storedCount_store _ := rfl
  table_withTable _ _ := rfl
  withTable_table _ := rfl
  withTable_withTable _ _ _ := rfl
  table_congr _ _ := rfl
  sourceTables_withTable _ _ := rfl
  checkpoints_withTable _ _ := rfl
  mutations_withTable _ _ := rfl

end ProtocolExplorer.Rollups
