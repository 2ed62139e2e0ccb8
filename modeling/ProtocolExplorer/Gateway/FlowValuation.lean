import ProtocolExplorer.Gateway.Directory

/-!
# The valuation of a flow row

The flow query joins the priced valuation of an event at the moment the event is fetched, and
returns an event only as long as it has no row.  A row that is written before its event is
valued is never written again.

* `valued_respected` — every program keeps the rows valued, statement by statement;
* `flows_valued` — **in every run that values no event after a pass has fetched it, the flow row
  of a valued event carries its valuation**, whether or not a pass has run since;
* `flow_stays_unvalued` — a row that stays without a valuation however often the pass runs.
-/

set_option autoImplicit false

namespace ProtocolExplorer.Gateway

open ProtocolExplorer.Lib
open ProtocolExplorer.Store
open ProtocolExplorer.Indexer

/-! ## The law and its condition -/

/-- The amount and the version of one of the priced valuations of the event. -/
def CarriesValuation (w : World) (eventId : ℤ) (amountUsd : Option Numeric)
    (version : Option Version) : Prop :=
  ∃ v ∈ pricedValuations w.db eventId, amountUsd = v.amountUsd ∧ version = some v.valuationVersion

instance (w : World) (eventId : ℤ) (amountUsd : Option Numeric) (version : Option Version) :
    Decidable (CarriesValuation w eventId amountUsd version) :=
  inferInstanceAs (Decidable (∃ v ∈ pricedValuations w.db eventId, _))

/-- The flow row of an event that is finalized and valued carries the valuation. -/
def FlowValued (w : World) (e : RawEvent) : Prop :=
  brokerEvent flowEvents false e = true → pricedValuations w.db e.id ≠ [] →
    ∀ row ∈ w.db.gatewayFlows.lookup (e.id, flowKindOf e.eventName),
      CarriesValuation w e.id row.amountUsd row.valuationVersion

instance (w : World) (e : RawEvent) : Decidable (FlowValued w e) :=
  inferInstanceAs (Decidable (_ → _ → ∀ row ∈ w.db.gatewayFlows.lookup
    (e.id, flowKindOf e.eventName), CarriesValuation w e.id row.amountUsd row.valuationVersion))

/-- The first priced valuation of an event is committed before a pass fetches the event for its
flow row. -/
def valuesBeforeFetch (w : World) : World.Event → Prop
  | .value row => row.status = .priced → pricedValuations w.db row.eventId = [] →
      row.eventId ∉ w.fetched
  | _ => True

instance (w : World) : ∀ e, Decidable (valuesBeforeFetch w e)
  | .value row => inferInstanceAs (Decidable (row.status = .priced →
      pricedValuations w.db row.eventId = [] → row.eventId ∉ w.fetched))
  | .rows _ => inferInstanceAs (Decidable True)
  | .reorg .. => inferInstanceAs (Decidable True)
  | .becomeFinal _ => inferInstanceAs (Decidable True)

/-- The condition of the law. -/
abbrev valuedFirst : Discipline World World.Event Task GatewayOp :=
  ⟨valuesBeforeFetch, fun _ _ => True, fun _ _ => True⟩

/-! ## The protocol -/

theorem mem_pricedValuations {db : Db} {eventId : ℤ} {v : ValuationRow} :
    v ∈ pricedValuations db eventId ↔ v.status = .priced ∧
      ∃ version asset, db.eventValuations.lookup (eventId, version, asset) = some v := by
  simp only [pricedValuations, List.mem_flatMap, mem_sortKeys, Finset.mem_image, Finset.mem_filter,
    Finmap.mem_keys, Option.mem_toList, Option.filter_eq_some_iff, decide_eq_true_eq]
  constructor
  · rintro ⟨asset, _, version, _, found, priced⟩
    exact ⟨priced, version, asset, found⟩
  · rintro ⟨priced, version, asset, found⟩
    refine ⟨asset, by cases asset <;> simp, version, ⟨(eventId, version, asset), ⟨?_, rfl, rfl⟩, rfl⟩,
      found, priced⟩
    exact Finmap.mem_of_lookup_eq_some found

/-- The amount and the version were joined from the valuations that the event has. -/
structure Coherent (w : World) (eventId : ℤ) (amountUsd : Option Numeric)
    (version : Option Version) : Prop where
  fetched : eventId ∈ w.fetched
  carries : pricedValuations w.db eventId ≠ [] → CarriesValuation w eventId amountUsd version

/-- Every flow row was joined from the valuations of its event. -/
def AllValued (w : World) : Prop :=
  ∀ key row, w.db.gatewayFlows.lookup key = some row →
    Coherent w key.1 row.amountUsd row.valuationVersion

/-- Valuations stay, and none is added to an event that has been fetched without one. -/
structure KeepsValuations (w w' : World) : Prop where
  fetched : ∀ eventId ∈ w.fetched, eventId ∈ w'.fetched
  priced : ∀ eventId v, v ∈ pricedValuations w.db eventId → v ∈ pricedValuations w'.db eventId
  unpriced : ∀ eventId ∈ w.fetched, pricedValuations w.db eventId = [] →
    pricedValuations w'.db eventId = []

/-- The rows are valued as far as their events are. -/
def valued : Protocol World where
  inv := AllValued
  evolves := KeepsValuations
  refl _ := ⟨fun _ known => known, fun _ _ stored => stored, fun _ _ none_ => none_⟩
  trans first second := {
    fetched := fun eventId known => second.fetched eventId (first.fetched eventId known)
    priced := fun eventId v stored => second.priced eventId v (first.priced eventId v stored)
    unpriced := fun eventId known none_ => second.unpriced eventId (first.fetched eventId known)
      (first.unpriced eventId known none_) }

variable {blocks : BlockHash → Block} {broker : BlockHash → (call : BrokerCall) → call.Answer}
  {w w' : World}

theorem CarriesValuation.later {eventId : ℤ} {amountUsd : Option Numeric} {version : Option Version}
    (carries : CarriesValuation w eventId amountUsd version) (moved : KeepsValuations w w') :
    CarriesValuation w' eventId amountUsd version := by
  obtain ⟨v, stored, same⟩ := carries
  exact ⟨v, moved.priced eventId v stored, same⟩

theorem Coherent.later {eventId : ℤ} {amountUsd : Option Numeric} {version : Option Version}
    (coherent : Coherent w eventId amountUsd version) (moved : KeepsValuations w w') :
    Coherent w' eventId amountUsd version := by
  refine ⟨moved.fetched eventId coherent.fetched, fun some_ => ?_⟩
  by_cases none_ : pricedValuations w.db eventId = []
  · exact absurd (moved.unpriced eventId coherent.fetched none_) some_
  · exact (coherent.carries none_).later moved

/-- The priced valuations are read from the valuations. -/
theorem pricedValuations_congr {db db' : Db} (same : db'.eventValuations = db.eventValuations)
    (eventId : ℤ) : pricedValuations db' eventId = pricedValuations db eventId := by
  rw [pricedValuations, pricedValuations, same]

/-- Of a state that differs in no valuation and has fetched no less. -/
theorem keepsValuations_of_eq (valuations : w'.db.eventValuations = w.db.eventValuations)
    (fetched : ∀ eventId ∈ w.fetched, eventId ∈ w'.fetched) : KeepsValuations w w' where
  fetched := fetched
  priced eventId v stored := by rwa [pricedValuations_congr valuations]
  unpriced eventId _ none_ := by rwa [pricedValuations_congr valuations]

theorem AllValued.later (sound : AllValued w) (moved : KeepsValuations w w')
    (flows : w'.db.gatewayFlows = w.db.gatewayFlows) : AllValued w' := by
  intro key row found
  rw [flows] at found
  exact (sound key row found).later moved

/-- Committing a valuation. -/
theorem keepsValuations_value {offered : ValuationRow}
    (allowed : valuesBeforeFetch w (.value offered))
    (occurred : w.occur (.value offered) = some w') : KeepsValuations w w' := by
  cases occurred
  have grown : Table.Grown (fun key row => key = offered.key ∧ row = offered) w.db.eventValuations
      (Table.insertNew w.db.eventValuations offered.key offered) :=
    Table.grown_insertNew ⟨rfl, rfl⟩ _
  refine ⟨fun _ known => known, fun eventId v stored => ?_, fun eventId known none_ => ?_⟩
  · obtain ⟨priced, version, asset, found⟩ := mem_pricedValuations.mp stored
    exact mem_pricedValuations.mpr ⟨priced, version, asset, grown.kept _ _ found⟩
  · refine List.eq_nil_iff_forall_not_mem.mpr fun v stored => ?_
    obtain ⟨priced, version, asset, found⟩ := mem_pricedValuations.mp stored
    rcases grown.fresh _ _ found with old | ⟨_, sameKey, rfl⟩
    · have listed : v ∈ pricedValuations w.db eventId :=
        mem_pricedValuations.mpr ⟨priced, version, asset, old⟩
      rw [none_] at listed
      exact absurd listed List.not_mem_nil
    · have sameEvent : eventId = v.eventId := congrArg Prod.fst sameKey
      subst sameEvent
      exact allowed priced none_ known

theorem valued_occur {e : World.Event} (sound : AllValued w) (allowed : valuesBeforeFetch w e)
    (occurred : w.occur e = some w') : AllValued w' ∧ KeepsValuations w w' := by
  cases e with
  | rows a =>
      obtain ⟨events, _, rfl⟩ := Option.map_eq_some_iff.mp occurred
      have moved : KeepsValuations w { w with db := { w.db with rawProtocolEvents := events } } :=
        keepsValuations_of_eq rfl fun _ known => known
      exact ⟨sound.later moved rfl, moved⟩
  | value offered =>
      have moved := keepsValuations_value allowed occurred
      cases occurred
      exact ⟨sound.later moved rfl, moved⟩
  | _ =>
      simp only [World.occur, Option.ite_none_right_eq_some, Option.some.injEq] at occurred
      obtain ⟨_, rfl⟩ := occurred
      refine ⟨sound.later ?_ rfl, ?_⟩
      · exact keepsValuations_of_eq rfl fun _ known => known
      · exact keepsValuations_of_eq rfl fun _ known => known

/-! ## Statements -/

/-- A flow candidate that was joined from the valuations of its event. -/
def CandidateValued (w : World) (c : GatewayFlowCandidate) : Prop :=
  Coherent w c.eventId c.amountUsd c.valuationVersion

/-- A statement keeps the rows valued if it writes valued candidates only. -/
theorem valued_act {op : GatewayOp} {answer : op.Answer} (sound : AllValued w)
    (acted : w.act blocks broker op = some (w', answer))
    (writes : ∀ c, op = .upsertGatewayFlow c → CandidateValued w c) :
    AllValued w' ∧ KeepsValuations w w' := by
  obtain ⟨_, _, same⟩ := World.act_frame acted
  have moved : KeepsValuations w w' :=
    keepsValuations_of_eq (by rw [same, World.written_eventValuations])
      fun _ known => World.mem_fetched_of_act acted known
  refine ⟨?_, moved⟩
  cases op with
  | upsertGatewayFlow c =>
      intro key row found
      have written : (Table.upsert w.db.gatewayFlows (c.eventId, c.flowKind) fun _ => c.row).lookup
          key = some row := by
        rw [same] at found
        exact found
      rw [Table.lookup_upsert] at written
      split at written
      · next here =>
          cases written
          rw [here]
          exact (writes c rfl).later moved
      · exact (sound key row written).later moved
  | _ => exact sound.later moved (by rw [same]; rfl)

/-- A statement that writes no flow row. -/
def writesNoFlow : GatewayOp → Prop
  | .upsertGatewayFlow _ => False
  | _ => True

theorem valued_keeps (s : World) (op : GatewayOp) (s' : World) (answer : op.Answer)
    (sound : AllValued s) (_ : valuedFirst.op s op) (permitted : writesNoFlow op)
    (acted : (workload blocks broker).act s op = some (s', answer)) :
    AllValued s' ∧ KeepsValuations s s' := by
  refine valued_act sound acted fun c same => ?_
  subst same
  exact absurd permitted id

/-- A program that writes no flow row. -/
theorem valued_silent {α : Type} {p : Program α} (uses : p.Uses writesNoFlow) :
    Ensures (workload blocks broker) valuedFirst valued (fun _ _ => True) p w :=
  ensures_of_uses (fun _ _ _ known => known)
    (fun s op s' answer sound _ => valued_keeps s op s' answer sound) uses trivial

/-- Requests write no flow row. -/
theorem writesNoFlow_of_requestOp {gateway : Address} (op : GatewayOp)
    (permitted : requestOp gateway op) : writesNoFlow op := by
  cases op with
  | upsertGatewayFlow c => exact permitted
  | _ => trivial

/-- Of the walks, only the flow walk writes flow rows. -/
theorem writesNoFlow_of_walkOp {axis : GatewayAxis} (other : axis ≠ .flow) (op : GatewayOp)
    (permitted : walkOp axis op) : writesNoFlow op := by
  cases op with
  | upsertGatewayFlow c =>
      cases axis with
      | flow => exact other rfl
      | _ => exact permitted
  | _ => trivial

/-! ## Programs -/

/-- A candidate is joined from the valuations that its event has when it is fetched. -/
theorem candidateValued_of_fetched {includeTentative : Bool} {resumeFromBlock : Option ℤ}
    {limit : ℕ} {c : GatewayFlowCandidate}
    (fetched : c ∈ fetchFlowCandidatesAfter includeTentative resumeFromBlock limit w.db) :
    CandidateValued
      (w.fetch (fetchFlowCandidatesAfter includeTentative resumeFromBlock limit w.db)) c := by
  refine ⟨Finset.mem_union_right _ (List.mem_toFinset.mpr (List.mem_map_of_mem fetched)), ?_⟩
  intro (priced : pricedValuations w.db c.eventId ≠ [])
  obtain ⟨e, _, built⟩ := List.mem_flatMap.mp (mem_of_mem_orderedBatch fetched)
  obtain ⟨gateway, _, built⟩ := List.mem_flatMap.mp built
  obtain ⟨valuation, joined, rfl⟩ := List.mem_map.mp built
  rw [joinedValuations, if_neg priced] at joined
  obtain ⟨v, stored, rfl⟩ := List.mem_map.mp joined
  exact ⟨v, stored, rfl, rfl⟩

theorem valued_walkFlows {candidates : List GatewayFlowCandidate} (sound : AllValued w)
    (carried : ∀ c ∈ candidates, CandidateValued w c) :
    Ensures (workload blocks broker) valuedFirst valued (fun _ _ => True) (walkFlows candidates)
      w := by
  let assertion (rest : List GatewayFlowCandidate) (s : World) : Prop :=
    ∀ c ∈ rest, CandidateValued s c
  refine ensures_bind (Ensures.imp (ensures_forM _ assertion ?_ sound carried) ?_)
  · intro c rest s _ known
    refine ensures_statement fun s' moved sound' _ s'' answer acted => ?_
    have stepped : s'.act blocks broker (.upsertGatewayFlow c) = some (s'', answer) := acted
    obtain ⟨kept, moved'⟩ := valued_act sound' stepped fun c' same => by
      cases same
      exact Coherent.later (known c (List.mem_cons_self ..)) moved
    refine ⟨kept, moved', fun c' later => ?_⟩
    have here := known c' (List.mem_cons_of_mem c later)
    exact Coherent.later here (valued.trans moved moved')
  · intro _ s _
    refine valued_silent ?_
    cases candidates.getLast? with
    | none => trivial
    | some c => exact ⟨trivial, fun _ => trivial⟩

theorem valued_runGatewayBackfill (limits : BatchLimits) (includeTentative : Bool) :
    Ensures (workload blocks broker) valuedFirst valued (fun _ _ => True)
      (runGatewayBackfill limits includeTentative) w := by
  refine ensures_bind (ensures_query valued_keeps trivial fun _ _ flow _ _ _ _ => ?_)
  refine ensures_bind (ensures_query valued_keeps trivial fun _ _ claimant _ _ _ _ => ?_)
  refine ensures_bind (ensures_query valued_keeps trivial fun _ _ balance _ _ _ _ => ?_)
  refine ensures_bind (ensures_query valued_keeps trivial
    fun s s' (flows : List GatewayFlowCandidate) _ _ _ acted => ?_)
  have carried : ∀ c ∈ flows, CandidateValued s' c := by
    cases acted
    intro c fetched
    exact candidateValued_of_fetched fetched
  -- two more queries come between the fetch and the writes
  refine ensures_bind (ensures_query valued_keeps trivial fun _ t claimants moved _ _ _ => ?_)
  refine ensures_bind (ensures_query valued_keeps trivial fun _ t' balances moved' sound _ _ => ?_)
  have still : ∀ c ∈ flows, CandidateValued t' c := fun c member =>
    Coherent.later (carried c member) (valued.trans moved moved')
  refine ensures_bind (Ensures.imp (valued_walkFlows sound still) fun _ _ _ => ?_)
  refine ensures_bind (Ensures.imp (valued_silent ((uses_walkClaimants claimants).mono
    (writesNoFlow_of_walkOp (by decide)))) fun _ _ _ => ?_)
  exact valued_silent ((uses_walkBalances balance balances).mono
    (writesNoFlow_of_walkOp (by decide)))

theorem valued_respected : Respects (workload blocks broker) valuedFirst valued where
  event s e s' sound allowed occurred := valued_occur sound allowed occurred
  program s task _ _ := by
    cases task with
    | gatewayBackfill limits includeTentative =>
        exact valued_runGatewayBackfill limits includeTentative
    | balanceLatest gateway =>
        exact valued_silent ((Process.uses_map uses_balanceLatest).mono writesNoFlow_of_requestOp)
    | balanceAtBlock gateway block =>
        exact valued_silent ((Process.uses_map (uses_balanceAtBlock block)).mono
          writesNoFlow_of_requestOp)

/-- **The flow row of a valued event carries its valuation**, in every state of every run that
keeps the condition. -/
theorem flows_valued (blocks : BlockHash → Block)
    (broker : BlockHash → (call : BrokerCall) → call.Answer) (pool : GatewayPool)
    (ran : GuardedRun (workload blocks broker).step valuedFirst.allows GatewayPool.start pool)
    (e : RawEvent) : FlowValued pool.shared e := by
  have start : Pool.Sound (workload blocks broker) valuedFirst valued GatewayPool.start :=
    ⟨fun _ _ found => absurd found (by simp [GatewayPool.start, World.start, Db.empty]),
      fun _ member => absurd member List.not_mem_nil⟩
  intro _ priced row found
  exact ((valued_respected.run start ran).1.inv _ row found).carries priced

/-! ## A valuation before and after the pass -/

/-- A pass is started and runs to its end, whatever happens meanwhile. -/
def PassRuns (blocks : BlockHash → Block)
    (broker : BlockHash → (call : BrokerCall) → call.Answer) (pool pool' : GatewayPool) : Prop :=
  ∃ limits includeTentative middle,
    (workload blocks broker).step pool (.spawn (.gatewayBackfill limits includeTentative)) =
      some middle ∧
    Run (workload blocks broker).step middle pool' ∧
    pool'.running[pool.running.length]?.any Process.ended = true

/-- The valuation of the deposit. -/
def depositValuation : ValuationRow where
  eventId := 1
  valuationVersion := twapVersion
  asset := .ETH
  pricingMethod := "chainlink_eth_usd"
  source := "chainlink"
  status := .priced
  blockNumber := 0
  amountNative := ⟨5⟩
  nativeUsdPrice := some ⟨2⟩
  amountUsd := some ⟨10⟩
  pricingChain := "ok"

/-- The deposit as it is stored. -/
def finalDeposit : RawEvent := (depositRow "0xt" 0 "0xa").finalizedAs 1 0

/-- The deposit is indexed and finalized. -/
def depositSchedule : List (PoolAction World.Event Task) :=
  [.event (.reorg 0 ["0xa"]), .event (.rows (.insert [(1, depositRow "0xt" 0 "0xa")])),
    .event (.rows (.finalize 0 1000))]

/-- A pass over the deposit, to its end. -/
def depositPass : List (PoolAction World.Event Task) :=
  .spawn (.gatewayBackfill batchLimits false) :: steps 12

/-- The deposit is valued, then a pass runs. -/
def valuedPool : GatewayPool :=
  (execute (workload emptyBlocks unusedBroker).step GatewayPool.start
    (depositSchedule ++ .event (.value depositValuation) :: depositPass)).get (by decide +kernel)

/-- The row carries the valuation. -/
theorem depositPass_flows_valued :
    (finalDeposit.id, flowKindOf finalDeposit.eventName) ∈ valuedPool.shared.db.gatewayFlows ∧
      FlowValued valuedPool.shared finalDeposit := by
  have executed : execute (workload emptyBlocks unusedBroker).step GatewayPool.start
      (depositSchedule ++ .event (.value depositValuation) :: depositPass) = some valuedPool :=
    (Option.some_get _).symm
  refine ⟨by decide +kernel, flows_valued emptyBlocks unusedBroker valuedPool ?_ finalDeposit⟩
  exact execute_guardedRun executed (by decide +kernel)

/-- A pass runs, then the deposit is valued. -/
def latePool : GatewayPool :=
  (execute (workload emptyBlocks unusedBroker).step GatewayPool.start
    (depositSchedule ++ depositPass ++ [.stop 0, .event (.value depositValuation)])).get
      (by decide +kernel)

/-- A pass that finds nothing left to do. -/
def idlePass : List (PoolAction World.Event Task) := steps 7

/-- The system after another pass. -/
def laterPool : GatewayPool :=
  (execute (workload emptyBlocks unusedBroker).step latePool
    (.spawn (.gatewayBackfill batchLimits false) :: idlePass)).get (by decide +kernel)

/-- **A row stays without its valuation**: the event is finalized, valued and processed, and the
pass runs again. -/
theorem flow_stays_unvalued :
    ¬ ∀ pool pool' : GatewayPool,
      Run (workload emptyBlocks unusedBroker).step GatewayPool.start pool →
      PassRuns emptyBlocks unusedBroker pool pool' →
      ∀ e ∈ pool.shared.db.rawProtocolEvents, brokerEvent flowEvents false e = true →
        pricedValuations pool.shared.db e.id ≠ [] →
        (e.id, flowKindOf e.eventName) ∈ pool.shared.db.gatewayFlows →
          FlowValued pool'.shared e := by
  intro law
  have first : execute (workload emptyBlocks unusedBroker).step GatewayPool.start
      (depositSchedule ++ depositPass ++ [.stop 0, .event (.value depositValuation)]) =
      some latePool := (Option.some_get _).symm
  have second : execute (workload emptyBlocks unusedBroker).step latePool
      (.spawn (.gatewayBackfill batchLimits false) :: idlePass) = some laterPool :=
    (Option.some_get _).symm
  have again : PassRuns emptyBlocks unusedBroker latePool laterPool :=
    ⟨batchLimits, false, _, rfl, execute_run second, by decide +kernel⟩
  have unvalued : ¬ FlowValued laterPool.shared finalDeposit := by decide +kernel
  exact unvalued (law latePool laterPool (execute_run first) again finalDeposit
    (by decide +kernel) (by decide +kernel) (by decide +kernel) (by decide +kernel))

end ProtocolExplorer.Gateway
