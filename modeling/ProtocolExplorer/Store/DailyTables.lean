import ProtocolExplorer.Lib.GroupedTotals
import ProtocolExplorer.Store.Valuation
import ProtocolExplorer.Store.RawEvent

/-!
# The daily rollup tables

Keys and summed columns of the four daily tables.  The last column of each table, the
largest event id that went into a row, is the `latest` of a `Total`.  Payout and reward
sums are exact rationals in memory and `NUMERIC(38, 18)` in their table, so their type is
generic in the amounts.
-/

set_option autoImplicit false

namespace ProtocolExplorer.Store

open ProtocolExplorer.Lib

/-- `broadcaster_classifications.kind`. -/
inductive BroadcasterKind where
  | ai
  | transcoding
  deriving DecidableEq, Repr

/-- The four rollup writers. -/
inductive RollupName where
  | eventMetricsDaily
  | orchPayoutsDaily
  | orchRewardsDaily
  | ticketsDaily
  deriving DecidableEq, Repr

/-! ## `event_metrics_daily` -/

structure EventMetricsKey where
  dayUtc : ℤ
  contractName : ContractKind
  eventName : EventName
  asset : Asset
  valuationVersion : Version
  deriving DecidableEq

@[ext] structure EventMetricsSums where
  eventCount : ℤ
  sumAmountNative : Numeric
  sumAmountUsd : Numeric
  usdRowsPriced : ℤ
  deriving DecidableEq

namespace EventMetricsSums

def columns (sums : EventMetricsSums) : ℤ × Numeric × Numeric × ℤ :=
  (sums.eventCount, sums.sumAmountNative, sums.sumAmountUsd, sums.usdRowsPriced)

instance : Zero EventMetricsSums := ⟨⟨0, 0, 0, 0⟩⟩

instance : Add EventMetricsSums :=
  ⟨fun a b => ⟨a.eventCount + b.eventCount, a.sumAmountNative + b.sumAmountNative,
    a.sumAmountUsd + b.sumAmountUsd, a.usdRowsPriced + b.usdRowsPriced⟩⟩

instance : SMul ℕ EventMetricsSums :=
  ⟨fun n a => ⟨n • a.eventCount, n • a.sumAmountNative, n • a.sumAmountUsd,
    n • a.usdRowsPriced⟩⟩

theorem columns_injective : Function.Injective columns := by
  intro a b same
  simp only [columns, Prod.mk.injEq] at same
  exact EventMetricsSums.ext same.1 same.2.1 same.2.2.1 same.2.2.2

instance : AddCommMonoid EventMetricsSums :=
  columns_injective.addCommMonoid columns rfl (fun _ _ => rfl) fun _ _ => rfl

end EventMetricsSums

/-! ## `orch_payouts_daily` -/

structure PayoutKey where
  dayUtc : ℤ
  orchestratorAddress : Address
  valuationVersion : Version
  broadcasterKind : BroadcasterKind
  deriving DecidableEq

@[ext] structure PayoutSums (Amount : Type) where
  ticketCount : ℤ
  sumFaceValueNative : Amount
  sumFaceValueUsd : Amount
  sumCommissionNative : Amount
  sumCommissionUsd : Amount
  sumDelegatorsShareNative : Amount
  sumDelegatorsShareUsd : Amount
  distinctGateways : ℤ
  usdRowsPriced : ℤ
  deriving DecidableEq

namespace PayoutSums

variable {Amount Amount' : Type}

def columns (sums : PayoutSums Amount) :
    ℤ × Amount × Amount × Amount × Amount × Amount × Amount × ℤ × ℤ :=
  (sums.ticketCount, sums.sumFaceValueNative, sums.sumFaceValueUsd, sums.sumCommissionNative,
    sums.sumCommissionUsd, sums.sumDelegatorsShareNative, sums.sumDelegatorsShareUsd,
    sums.distinctGateways, sums.usdRowsPriced)

theorem columns_injective : Function.Injective (columns : PayoutSums Amount → _) := by
  intro a b same
  simp only [columns, Prod.mk.injEq] at same
  obtain ⟨h₁, h₂, h₃, h₄, h₅, h₆, h₇, h₈, h₉⟩ := same
  exact PayoutSums.ext h₁ h₂ h₃ h₄ h₅ h₆ h₇ h₈ h₉

/-- Apply a conversion to every amount. -/
def map (convert : Amount → Amount') (sums : PayoutSums Amount) : PayoutSums Amount' where
  ticketCount := sums.ticketCount
  sumFaceValueNative := convert sums.sumFaceValueNative
  sumFaceValueUsd := convert sums.sumFaceValueUsd
  sumCommissionNative := convert sums.sumCommissionNative
  sumCommissionUsd := convert sums.sumCommissionUsd
  sumDelegatorsShareNative := convert sums.sumDelegatorsShareNative
  sumDelegatorsShareUsd := convert sums.sumDelegatorsShareUsd
  distinctGateways := sums.distinctGateways
  usdRowsPriced := sums.usdRowsPriced

section Sums

variable [AddCommMonoid Amount]

instance : Zero (PayoutSums Amount) := ⟨⟨0, 0, 0, 0, 0, 0, 0, 0, 0⟩⟩

instance : Add (PayoutSums Amount) :=
  ⟨fun a b => ⟨a.ticketCount + b.ticketCount, a.sumFaceValueNative + b.sumFaceValueNative,
    a.sumFaceValueUsd + b.sumFaceValueUsd, a.sumCommissionNative + b.sumCommissionNative,
    a.sumCommissionUsd + b.sumCommissionUsd,
    a.sumDelegatorsShareNative + b.sumDelegatorsShareNative,
    a.sumDelegatorsShareUsd + b.sumDelegatorsShareUsd, a.distinctGateways + b.distinctGateways,
    a.usdRowsPriced + b.usdRowsPriced⟩⟩

instance : SMul ℕ (PayoutSums Amount) :=
  ⟨fun n a => ⟨n • a.ticketCount, n • a.sumFaceValueNative, n • a.sumFaceValueUsd,
    n • a.sumCommissionNative, n • a.sumCommissionUsd, n • a.sumDelegatorsShareNative,
    n • a.sumDelegatorsShareUsd, n • a.distinctGateways, n • a.usdRowsPriced⟩⟩

instance : AddCommMonoid (PayoutSums Amount) :=
  columns_injective.addCommMonoid columns rfl (fun _ _ => rfl) fun _ _ => rfl

end Sums

end PayoutSums

/-! ## `orch_rewards_daily` -/

structure RewardKey where
  dayUtc : ℤ
  orchestratorAddress : Address
  valuationVersion : Version
  deriving DecidableEq

@[ext] structure RewardSums (Amount : Type) where
  rewardEventCount : ℤ
  sumTotalTokens : Amount
  sumTotalTokensUsd : Amount
  sumOrchTokens : Amount
  sumOrchTokensUsd : Amount
  sumDelegatorsTokens : Amount
  sumDelegatorsTokensUsd : Amount
  usdRowsPriced : ℤ
  deriving DecidableEq

namespace RewardSums

variable {Amount Amount' : Type}

def columns (sums : RewardSums Amount) :
    ℤ × Amount × Amount × Amount × Amount × Amount × Amount × ℤ :=
  (sums.rewardEventCount, sums.sumTotalTokens, sums.sumTotalTokensUsd, sums.sumOrchTokens,
    sums.sumOrchTokensUsd, sums.sumDelegatorsTokens, sums.sumDelegatorsTokensUsd,
    sums.usdRowsPriced)

theorem columns_injective : Function.Injective (columns : RewardSums Amount → _) := by
  intro a b same
  simp only [columns, Prod.mk.injEq] at same
  obtain ⟨h₁, h₂, h₃, h₄, h₅, h₆, h₇, h₈⟩ := same
  exact RewardSums.ext h₁ h₂ h₃ h₄ h₅ h₆ h₇ h₈

/-- Apply a conversion to every amount. -/
def map (convert : Amount → Amount') (sums : RewardSums Amount) : RewardSums Amount' where
  rewardEventCount := sums.rewardEventCount
  sumTotalTokens := convert sums.sumTotalTokens
  sumTotalTokensUsd := convert sums.sumTotalTokensUsd
  sumOrchTokens := convert sums.sumOrchTokens
  sumOrchTokensUsd := convert sums.sumOrchTokensUsd
  sumDelegatorsTokens := convert sums.sumDelegatorsTokens
  sumDelegatorsTokensUsd := convert sums.sumDelegatorsTokensUsd
  usdRowsPriced := sums.usdRowsPriced

section Sums

variable [AddCommMonoid Amount]

instance : Zero (RewardSums Amount) := ⟨⟨0, 0, 0, 0, 0, 0, 0, 0⟩⟩

instance : Add (RewardSums Amount) :=
  ⟨fun a b => ⟨a.rewardEventCount + b.rewardEventCount, a.sumTotalTokens + b.sumTotalTokens,
    a.sumTotalTokensUsd + b.sumTotalTokensUsd, a.sumOrchTokens + b.sumOrchTokens,
    a.sumOrchTokensUsd + b.sumOrchTokensUsd, a.sumDelegatorsTokens + b.sumDelegatorsTokens,
    a.sumDelegatorsTokensUsd + b.sumDelegatorsTokensUsd, a.usdRowsPriced + b.usdRowsPriced⟩⟩

instance : SMul ℕ (RewardSums Amount) :=
  ⟨fun n a => ⟨n • a.rewardEventCount, n • a.sumTotalTokens, n • a.sumTotalTokensUsd,
    n • a.sumOrchTokens, n • a.sumOrchTokensUsd, n • a.sumDelegatorsTokens,
    n • a.sumDelegatorsTokensUsd, n • a.usdRowsPriced⟩⟩

instance : AddCommMonoid (RewardSums Amount) :=
  columns_injective.addCommMonoid columns rfl (fun _ _ => rfl) fun _ _ => rfl

end Sums

end RewardSums

/-! ## `tickets_daily` -/

structure TicketKey where
  dayUtc : ℤ
  broadcasterKind : BroadcasterKind
  deriving DecidableEq

@[ext] structure TicketSums where
  ticketCount : ℤ
  distinctOrchestrators : ℤ
  distinctGateways : ℤ
  deriving DecidableEq

namespace TicketSums

def columns (sums : TicketSums) : ℤ × ℤ × ℤ :=
  (sums.ticketCount, sums.distinctOrchestrators, sums.distinctGateways)

theorem columns_injective : Function.Injective columns := by
  intro a b same
  simp only [columns, Prod.mk.injEq] at same
  exact TicketSums.ext same.1 same.2.1 same.2.2

instance : Zero TicketSums := ⟨⟨0, 0, 0⟩⟩

instance : Add TicketSums :=
  ⟨fun a b => ⟨a.ticketCount + b.ticketCount, a.distinctOrchestrators + b.distinctOrchestrators,
    a.distinctGateways + b.distinctGateways⟩⟩

instance : SMul ℕ TicketSums :=
  ⟨fun n a => ⟨n • a.ticketCount, n • a.distinctOrchestrators, n • a.distinctGateways⟩⟩

instance : AddCommMonoid TicketSums :=
  columns_injective.addCommMonoid columns rfl (fun _ _ => rfl) fun _ _ => rfl

end TicketSums

end ProtocolExplorer.Store
