import ProtocolExplorer.Gateway.Snapshots

/-!
# The balance at a block

`balance_at_block` answers from the latest stored snapshot at or before the block, without asking
whether the gateway has been touched since.  Snapshots lag behind the indexed touches: they wait
for finality and for the pass.

* `contractState_of_untouched` — without a touch the contract's state of a gateway stays;
* `readAndPersist_answers`, `stored_answers` — what a direct read and a stored snapshot say;
* `balanceAtBlock_exact_iff` — **the answer is exact if and only if no touch lies between the
  latest snapshot and the block**;
* `overtakenSnapshot_is_served` — a deposit that is indexed and not yet final.
-/

set_option autoImplicit false

namespace ProtocolExplorer.Gateway

open ProtocolExplorer.Lib
open ProtocolExplorer.Store
open ProtocolExplorer.Indexer

/-! ## The law and its condition -/

/-- The TicketBroker logs up to a block are indexed. -/
def IndexedUpTo (blocks : BlockHash → Block) (w : World) (block : ℤ) : Prop :=
  ∀ raw ∈ chainLogs blocks w.chain, raw.log.contractName = .TicketBroker →
    (raw.blockNumber : ℤ) ≤ block →
      ∃ e ∈ w.db.rawProtocolEvents, e.isCanonical = true ∧ IsRowOf e.toPreparedRow raw

instance (blocks : BlockHash → Block) (w : World) (block : ℤ) :
    Decidable (IndexedUpTo blocks w block) :=
  inferInstanceAs (Decidable (∀ raw ∈ chainLogs blocks w.chain,
    raw.log.contractName = .TicketBroker → (raw.blockNumber : ℤ) ≤ block →
      ∃ e ∈ w.db.rawProtocolEvents, e.isCanonical = true ∧ IsRowOf e.toPreparedRow raw))

/-- A log of a touch event of the gateway. -/
def touchLog (gateway : Address) (log : ChainLog) : Prop :=
  log.contractName = .TicketBroker ∧
    ∃ fields ∈ log.fields, fields.eventName ∈ touchEvents ∧ fields.fromAddress = some gateway

instance (gateway : Address) (log : ChainLog) : Decidable (touchLog gateway log) :=
  inferInstanceAs (Decidable (_ ∧ ∃ fields ∈ log.fields, _))

/-- Along the chain, only a touch of a gateway changes what the contract says about it. -/
def OnlyTouchesChange (blocks : BlockHash → Block)
    (broker : BlockHash → (call : BrokerCall) → call.Answer) (chain : List BlockHash) : Prop :=
  ∀ number hash hash' gateway, chain[number]? = some hash → chain[number + 1]? = some hash' →
    (∀ log ∈ (blocks hash').logs, ¬ touchLog gateway log) →
      contractState broker hash' gateway = contractState broker hash gateway

/-- What an answer says. -/
def answerState (row : GatewayBalanceRow) : ContractState where
  deposit := row.deposit
  reserve := row.reserveFundsRemaining
  withdrawRound := row.withdrawRound
  unlock := row.unlockInProgress

/-- The request answers what the contract says at the block, and from no snapshot that an indexed
touch at or before the block has overtaken. -/
def BalanceExact (blocks : BlockHash → Block)
    (broker : BlockHash → (call : BrokerCall) → call.Answer) (w : World) (gateway : Address)
    (block : ℤ) : Prop :=
  ∀ w' row, (balanceAtBlock gateway block).runAlone (World.act blocks broker) w =
      some (w', some row) →
    (∀ hash ∈ w.blockAt block, answerState row = contractState broker hash gateway) ∧
      ∀ e ∈ w.db.rawProtocolEvents, touches gateway e = true → e.blockNumber ≤ block →
        e.blockNumber ≤ row.blockNumber

/-- No indexed touch lies between the latest snapshot and the block. -/
def NotOvertaken (w : World) (gateway : Address) (block : ℤ) : Prop :=
  ∀ snapshot ∈ latestBalanceBlock gateway (some block) w.db, ∀ e ∈ w.db.rawProtocolEvents,
    touches gateway e = true → e.blockNumber ≤ block → e.blockNumber ≤ snapshot

instance (w : World) (gateway : Address) (block : ℤ) : Decidable (NotOvertaken w gateway block) :=
  inferInstanceAs (Decidable (∀ snapshot ∈ latestBalanceBlock gateway (some block) w.db,
    ∀ e ∈ w.db.rawProtocolEvents, touches gateway e = true → e.blockNumber ≤ block →
      e.blockNumber ≤ snapshot))

/-! ## The contract between two touches -/

variable {blocks : BlockHash → Block} {broker : BlockHash → (call : BrokerCall) → call.Answer}
  {w w' : World} {gateway : Address} {block : ℤ}

theorem blockAt_eq_some {hash : BlockHash} :
    w.blockAt block = some hash ↔ ∃ number : ℕ, (number : ℤ) = block ∧ w.chain[number]? = some hash := by
  unfold World.blockAt
  split
  · next nonneg =>
      obtain ⟨number, rfl⟩ := Int.eq_ofNat_of_zero_le nonneg
      simp
  · next negative =>
      simp only [reduceCtorEq, false_iff, not_exists, not_and]
      intro number same
      omega

/-- Without a touch log in between, the contract says the same. -/
theorem contractState_of_untouched {chain : List BlockHash}
    (onlyTouches : OnlyTouchesChange blocks broker chain) {first last : ℕ} (le : first ≤ last)
    {hash : BlockHash} (placed : chain[first]? = some hash)
    (untouched : ∀ number hash', first < number → number ≤ last → chain[number]? = some hash' →
      ∀ log ∈ (blocks hash').logs, ¬ touchLog gateway log) :
    ∀ hash', chain[last]? = some hash' →
      contractState broker hash' gateway = contractState broker hash gateway := by
  induction last, le using Nat.le_induction with
  | base =>
      intro hash' placed'
      rw [Option.some.inj (placed'.symm.trans placed)]
  | succ last le inductionHypothesis =>
      intro hash' placed'
      have inside : last < chain.length := by
        have := (List.getElem?_eq_some_iff.mp placed').1
        omega
      have before : chain[last]? = some chain[last] := List.getElem?_eq_getElem inside
      have here := untouched (last + 1) hash' (by omega) (le_refl _) placed'
      calc contractState broker hash' gateway
          = contractState broker chain[last] gateway :=
            onlyTouches last chain[last] hash' gateway before placed' here
        _ = contractState broker hash gateway :=
            inductionHypothesis (fun number hash'' after upTo =>
              untouched number hash'' after (by omega)) _ before

/-- An indexed touch log has its row. -/
theorem exists_touch_of_log (indexed : IndexedUpTo blocks w block) {number : ℕ} {hash : BlockHash}
    (placed : w.chain[number]? = some hash) (upTo : (number : ℤ) ≤ block) {log : ChainLog}
    (inBlock : log ∈ (blocks hash).logs) (touch : touchLog gateway log) :
    ∃ e ∈ w.db.rawProtocolEvents, touches gateway e = true ∧ e.blockNumber = number := by
  obtain ⟨contract, fields, decoded, listed, sender⟩ := touch
  obtain ⟨e, stored, canonical, own⟩ := indexed ⟨number, hash, log⟩
    (mem_chainLogs.mpr ⟨placed, inBlock⟩) contract upTo
  refine ⟨e, stored, touches_iff.mpr ?_, own.blockNumber_eq⟩
  obtain ⟨fields', decoded', same⟩ := Option.map_eq_some_iff.mp own
  cases decoded.symm.trans decoded'
  rw [← same]
  exact ⟨canonical, contract, listed, sender⟩

/-- From a block that no indexed touch follows, the contract says the same up to the block. -/
theorem contractState_eq_of_touches (indexed : IndexedUpTo blocks w block)
    (onlyTouches : OnlyTouchesChange blocks broker w.chain) {first : ℤ} (le : first ≤ block)
    (last : ∀ e ∈ w.db.rawProtocolEvents, touches gateway e = true → e.blockNumber ≤ block →
      e.blockNumber ≤ first) {hash hash' : BlockHash} (placed : w.blockAt first = some hash)
    (placed' : w.blockAt block = some hash') :
    contractState broker hash' gateway = contractState broker hash gateway := by
  obtain ⟨number, rfl, placed⟩ := blockAt_eq_some.mp placed
  obtain ⟨number', rfl, placed'⟩ := blockAt_eq_some.mp placed'
  refine contractState_of_untouched onlyTouches (by exact_mod_cast le) placed ?_ hash' placed'
  intro between hash'' after upTo placed'' log inBlock touch
  obtain ⟨e, stored, isTouch, at_⟩ :=
    exists_touch_of_log indexed placed'' (by exact_mod_cast upTo) inBlock touch
  have bound := last e stored isTouch (by rw [at_]; exact_mod_cast upTo)
  rw [at_] at bound
  omega

/-! ## The answers -/

/-- An answer about the same block that says the same. -/
def SameAnswer (row row' : GatewayBalanceRow) : Prop :=
  answerState row' = answerState row ∧ row'.blockNumber = row.blockNumber

theorem returns_storeSnapshot (row : GatewayBalanceRow) (triggeringEventId : Option ℤ)
    (header : Timestamp × BlockHash) :
    (storeSnapshot row triggeringEventId header).Returns fun answer =>
      ∀ row' ∈ answer, SameAnswer row row' := by
  unfold storeSnapshot
  split
  · exact fun row' none_ => nomatch none_
  · intro _ row' same
    cases same
    exact ⟨rfl, rfl⟩

/-- Storing does not change the answer. -/
theorem returns_persistGatewayBalanceSnapshot (row : GatewayBalanceRow) (touch : Option RawEvent) :
    (persistGatewayBalanceSnapshot row touch).Returns fun answer =>
      ∀ row' ∈ answer, SameAnswer row row' := by
  cases touch with
  | some touch => exact returns_storeSnapshot row _ _
  | none => exact fun first second => returns_storeSnapshot row none (first.1, second.2)

theorem blockAt_of_act {op : GatewayOp} {answer : op.Answer}
    (acted : w.act blocks broker op = some (w', answer)) (number : ℤ) :
    w'.blockAt number = w.blockAt number := by
  rw [World.blockAt, World.blockAt, (World.act_frame acted).1]

/-- **A direct read answers what the contract says at the block.** -/
theorem readAndPersist_answers (sound : ReadsRight broker w) {touch : Option RawEvent}
    {row : GatewayBalanceRow}
    (ran : (readAndPersist gateway block touch).runAlone (World.act blocks broker) w =
      some (w', some row)) :
    row.blockNumber = block ∧
      ∃ hash, w.blockAt block = some hash ∧ answerState row = contractState broker hash gateway := by
  obtain ⟨⟨s₁, sender⟩, read₁, rest⟩ := Option.bind_eq_some_iff.mp ran
  obtain ⟨⟨s₂, unlock⟩, read₂, rest⟩ := Option.bind_eq_some_iff.mp rest
  obtain ⟨sound₁, _, found₁⟩ := readsRight_brokerCall sound read₁
  obtain ⟨sound₂, moved₂, found₂⟩ := readsRight_brokerCall sound₁ read₂
  have known : Known gateway block sender unlock s₂ := ⟨moved₂.calls _ _ found₁, found₂⟩
  obtain ⟨hash, placed, _⟩ := sound₂.calls _ block _ rfl known.sender
  obtain ⟨same, number⟩ :=
    (returns_persistGatewayBalanceSnapshot _ touch).runAlone rest row (by rfl)
  refine ⟨number, hash, ?_, same.trans (known.stateOf_eq sound₂ placed)⟩
  rw [← blockAt_of_act read₁, ← blockAt_of_act read₂]
  exact placed

/-- The stored snapshot that is loaded is the latest one. -/
theorem stored_latest {bound : Option ℤ} {row : GatewayBalanceRow}
    (loaded : loadGatewayBalanceMaterialized gateway bound w.db = some row) :
    latestBalanceBlock gateway bound w.db = some row.blockNumber ∧
      ∃ stored, w.db.gatewayBalancesByBlock.lookup (gateway, row.blockNumber) = some stored ∧
        answerState row = snapshotState stored := by
  obtain ⟨number, isLatest, built⟩ := Option.bind_eq_some_iff.mp loaded
  obtain ⟨stored, found, rfl⟩ := Option.map_eq_some_iff.mp built
  exact ⟨isLatest, stored, found, rfl⟩

/-- **A stored snapshot answers what the contract says at its block.** -/
theorem stored_answers (sound : ReadsRight broker w) {bound : Option ℤ} {row : GatewayBalanceRow}
    (loaded : loadGatewayBalanceMaterialized gateway bound w.db = some row) :
    ∃ hash, w.blockAt row.blockNumber = some hash ∧
      answerState row = contractState broker hash gateway := by
  obtain ⟨_, stored, found, same⟩ := stored_latest loaded
  obtain ⟨_, placed, right⟩ := sound.rows gateway row.blockNumber stored found
  exact ⟨stored.blockHash, placed, same.trans right⟩

/-- A snapshot up to a block is a snapshot up to a later one. -/
theorem loaded_of_le {bound : ℤ} (le : bound ≤ block)
    (none_ : loadGatewayBalanceMaterialized gateway (some block) w.db = none) :
    loadGatewayBalanceMaterialized gateway (some bound) w.db = none := by
  have nothing : latestBalanceBlock gateway (some block) w.db = none := by
    cases isLatest : latestBalanceBlock gateway (some block) w.db with
    | none => rfl
    | some number =>
        obtain ⟨key, listed, rfl⟩ := Finset.mem_image.mp (latest_eq_some.mp isLatest).1
        obtain ⟨stored, own, _⟩ := Finset.mem_filter.mp listed
        obtain ⟨row, found⟩ := Finmap.mem_iff.mp (Finmap.mem_keys.mp stored)
        have absurd_ : loadGatewayBalanceMaterialized gateway (some block) w.db =
            some (materializedBalanceRow gateway key.2 row) := by
          rw [loadGatewayBalanceMaterialized, isLatest, Option.bind_some, ← own, found]
          rfl
        rw [absurd_] at none_
        cases none_
  have empty := latest_eq_none.mp nothing
  have earlier : latestBalanceBlock gateway (some bound) w.db = none := by
    refine latest_eq_none.mpr (Finset.eq_empty_of_forall_notMem fun number listed => ?_)
    obtain ⟨key, selected, rfl⟩ := Finset.mem_image.mp listed
    obtain ⟨stored, own, upTo⟩ := Finset.mem_filter.mp selected
    have later : key.2 ∈ (∅ : Finset ℤ) := empty ▸ Finset.mem_image_of_mem _
      (Finset.mem_filter.mpr ⟨stored, own, by
        simp only [Option.all_some, decide_eq_true_eq] at upTo ⊢
        exact le_trans upTo le⟩)
    exact absurd later (Finset.notMem_empty _)
  rw [loadGatewayBalanceMaterialized, earlier]
  rfl

/-- The touch that is loaded is the latest one. -/
theorem latestTouch_spec {e : RawEvent}
    (loaded : loadGatewayLatestTouch gateway (some block) w.db = some e) :
    e.blockNumber ≤ block ∧ ∀ e' ∈ w.db.rawProtocolEvents, touches gateway e' = true →
      e'.blockNumber ≤ block → e'.blockNumber ≤ e.blockNumber := by
  have first : e ∈ orderBy (fun e : RawEvent => OrderDual.toDual e.position)
      (w.db.rawProtocolEvents.filter fun e => touches gateway e &&
        (some block).all fun block => decide (e.blockNumber ≤ block)) :=
    List.mem_of_mem_head? loaded
  have upTo : e.blockNumber ≤ block := by
    have kept := (List.mem_filter.mp (mem_orderBy.mp first)).2
    simp only [Option.all_some, Bool.and_eq_true, decide_eq_true_eq] at kept
    exact kept.2
  refine ⟨upTo, fun e' stored touch upTo' => ?_⟩
  have member : e' ∈ orderBy (fun e : RawEvent => OrderDual.toDual e.position)
      (w.db.rawProtocolEvents.filter fun e => touches gateway e &&
        (some block).all fun block => decide (e.blockNumber ≤ block)) :=
    mem_orderBy.mpr (List.mem_filter.mpr ⟨stored, by simp [touch, upTo']⟩)
  have sorted := orderBy_pairwise (fun e : RawEvent => OrderDual.toDual e.position)
      (w.db.rawProtocolEvents.filter fun e => touches gateway e &&
        (some block).all fun block => decide (e.blockNumber ≤ block))
  cases rows : orderBy (fun e : RawEvent => OrderDual.toDual e.position)
      (w.db.rawProtocolEvents.filter fun e => touches gateway e &&
        (some block).all fun block => decide (e.blockNumber ≤ block)) with
  | nil =>
      rw [rows] at member
      exact absurd member List.not_mem_nil
  | cons head rest =>
      rw [loadGatewayLatestTouch, rows] at loaded
      cases loaded
      rw [rows] at member sorted
      rcases List.mem_cons.mp member with rfl | later
      · exact le_refl _
      · have le : e'.position ≤ e.position := (List.pairwise_cons.mp sorted).1 e' later
        exact block_le_of_position_le le

/-- No touch up to the block. -/
theorem latestTouch_none (none_ : loadGatewayLatestTouch gateway (some block) w.db = none)
    {e : RawEvent} (stored : e ∈ w.db.rawProtocolEvents) (touch : touches gateway e = true)
    (upTo : e.blockNumber ≤ block) : False := by
  have nothing := List.head?_eq_none_iff.mp none_
  have member : e ∈ orderBy (fun e : RawEvent => OrderDual.toDual e.position)
      (w.db.rawProtocolEvents.filter fun e => touches gateway e &&
        (some block).all fun block => decide (e.blockNumber ≤ block)) :=
    mem_orderBy.mpr (List.mem_filter.mpr ⟨stored, by simp [touch, upTo]⟩)
  rw [nothing] at member
  exact List.not_mem_nil member

/-! ## The request -/

/-- The request answers the stored snapshot, if there is one up to the block. -/
theorem balanceAtBlock_stored (nonneg : 0 ≤ block) {row : GatewayBalanceRow}
    (loaded : loadGatewayBalanceMaterialized gateway (some block) w.db = some row) :
    (balanceAtBlock gateway block).runAlone (World.act blocks broker) w = some (w, some row) := by
  rw [balanceAtBlock, if_neg (not_lt.mpr nonneg)]
  refine (Process.runAlone_bind _ _ w).trans ?_
  have asked : Process.runAlone (World.act blocks broker)
      (ask (.loadGatewayBalanceMaterialized gateway (some block))) w = some (w, some row) :=
    congrArg (fun answer => some (w, answer)) loaded
  refine (congrArg (Option.bind · _) asked).trans ?_
  rfl

/-- Otherwise it reads at the latest touch up to the block, or at the block itself. -/
theorem balanceAtBlock_read (nonneg : 0 ≤ block)
    (none_ : loadGatewayBalanceMaterialized gateway (some block) w.db = none)
    {row : GatewayBalanceRow}
    (ran : (balanceAtBlock gateway block).runAlone (World.act blocks broker) w =
      some (w', some row)) :
    (∃ touch, loadGatewayLatestTouch gateway (some block) w.db = some touch ∧
      (readAndPersist gateway touch.blockNumber (some touch)).runAlone (World.act blocks broker) w =
        some (w', some row)) ∨
    loadGatewayLatestTouch gateway (some block) w.db = none ∧
      (readAndPersist gateway block none).runAlone (World.act blocks broker) w =
        some (w', some row) := by
  rw [balanceAtBlock, if_neg (not_lt.mpr nonneg)] at ran
  obtain ⟨⟨s₁, stored⟩, acted, ran⟩ := Option.bind_eq_some_iff.mp ran
  cases acted
  rw [none_] at ran
  obtain ⟨⟨s₂, hydrated⟩, hydrate, ran⟩ := Option.bind_eq_some_iff.mp
    ((Process.runAlone_bind (hydrateGatewayBalanceAtLatestTouch gateway (some block)) _
      w).symm.trans ran)
  obtain ⟨⟨s₃, touch⟩, acted, hydrate⟩ := Option.bind_eq_some_iff.mp hydrate
  cases acted
  cases latestTouch : loadGatewayLatestTouch gateway (some block) w.db with
  | none =>
      rw [latestTouch] at hydrate
      cases hydrate
      exact Or.inr ⟨rfl, ran⟩
  | some touch =>
      refine Or.inl ⟨touch, rfl, ?_⟩
      rw [latestTouch] at hydrate
      obtain ⟨⟨s₄, stored⟩, acted, hydrate⟩ := Option.bind_eq_some_iff.mp hydrate
      cases acted
      rw [loaded_of_le (latestTouch_spec latestTouch).1 none_] at hydrate
      obtain ⟨⟨s₅, answer⟩, read, ended⟩ := Option.bind_eq_some_iff.mp
        ((Process.runAlone_bind (readAndPersist gateway touch.blockNumber (some touch)) _
          w).symm.trans hydrate)
      cases ended
      cases ran
      exact read

/-- **The balance at a block is exact if and only if its latest snapshot has not been overtaken**,
in every state of every run that keeps its snapshots right. -/
theorem balanceAtBlock_exact_iff (blocks : BlockHash → Block)
    (broker : BlockHash → (call : BrokerCall) → call.Answer) (fits : RoundsFit broker)
    (pool : GatewayPool)
    (ran : GuardedRun (workload blocks broker).step readOnce.allows GatewayPool.start pool)
    (onlyTouches : OnlyTouchesChange blocks broker pool.shared.chain) (gateway : Address)
    (block : ℕ) (indexed : IndexedUpTo blocks pool.shared block) :
    BalanceExact blocks broker pool.shared gateway block ↔
      NotOvertaken pool.shared gateway block := by
  have sound : ReadsRight broker pool.shared := readsRight_run fits ran
  have nonneg : (0 : ℤ) ≤ block := Int.natCast_nonneg block
  constructor
  · -- an overtaken snapshot is served
    intro exact_ snapshot isLatest e stored touch upTo
    cases loaded : loadGatewayBalanceMaterialized gateway (some (block : ℤ)) pool.shared.db with
    | none =>
        obtain ⟨key, selected, rfl⟩ := Finset.mem_image.mp (latest_eq_some.mp isLatest).1
        obtain ⟨member, own, _⟩ := Finset.mem_filter.mp selected
        obtain ⟨row, found⟩ := Finmap.mem_iff.mp (Finmap.mem_keys.mp member)
        rw [loadGatewayBalanceMaterialized, isLatest, Option.bind_some, ← own, found] at loaded
        cases loaded
    | some row =>
        have served := exact_ _ row (balanceAtBlock_stored nonneg loaded)
        have same := isLatest.symm.trans (stored_latest loaded).1
        cases same
        exact served.2 e stored touch upTo
  · intro notOvertaken w' row answered
    cases loaded : loadGatewayBalanceMaterialized gateway (some (block : ℤ)) pool.shared.db with
    | some stored =>
        rw [balanceAtBlock_stored nonneg loaded] at answered
        cases answered
        have isLatest := (stored_latest loaded).1
        have last := notOvertaken _ isLatest
        refine ⟨fun hash placed => ?_, last⟩
        obtain ⟨hash₀, placed₀, right⟩ := stored_answers sound loaded
        have le : row.blockNumber ≤ block := by
          obtain ⟨key, selected, same⟩ := Finset.mem_image.mp (latest_eq_some.mp isLatest).1
          have upTo := (Finset.mem_filter.mp selected).2.2
          rw [← same]
          simpa using upTo
        rw [contractState_eq_of_touches indexed onlyTouches le last placed₀ placed]
        exact right
    | none =>
        rcases balanceAtBlock_read nonneg loaded answered with ⟨touch, latestTouch, read⟩ |
          ⟨untouched, read⟩
        · obtain ⟨number, hash₀, placed₀, right⟩ := readAndPersist_answers sound read
          obtain ⟨le, last⟩ := latestTouch_spec latestTouch
          refine ⟨fun hash placed => ?_, by rw [number]; exact last⟩
          rw [contractState_eq_of_touches indexed onlyTouches le last placed₀ placed]
          exact right
        · obtain ⟨number, hash₀, placed₀, right⟩ := readAndPersist_answers sound read
          refine ⟨fun hash placed => ?_, fun e stored touch upTo => ?_⟩
          · cases placed₀.symm.trans placed
            exact right
          · exact absurd (latestTouch_none untouched stored touch upTo) id

/-! ## A snapshot and a deposit after it -/

/-- Between the two deposits nothing but the second changes the contract. -/
theorem fundedChain_onlyTouches : OnlyTouchesChange fundedBlocks fundedBroker ["0xa", "0xb"] := by
  intro number hash hash' gateway placed placed' untouched
  cases number with
  | zero =>
      cases placed
      cases placed'
      by_cases funded : gateway = "0xg"
      · subst funded
        exact absurd (by decide) (untouched (depositLog "0xu") (by decide))
      · simp [contractState, fundedBroker, funded]
  | succ number => simp at placed'

/-- With both snapshots stored, the balance after the second deposit is exact. -/
theorem fundedSchedule_exact :
    NotOvertaken fundedPool.shared "0xg" 1 ∧
      BalanceExact fundedBlocks fundedBroker fundedPool.shared "0xg" 1 := by
  have executed : execute (workload fundedBlocks fundedBroker).step GatewayPool.start
      fundedSchedule = some fundedPool := (Option.some_get _).symm
  have chain : fundedPool.shared.chain = ["0xa", "0xb"] := by decide +kernel
  have notOvertaken : NotOvertaken fundedPool.shared "0xg" 1 := by decide +kernel
  refine ⟨notOvertaken, ?_⟩
  exact (balanceAtBlock_exact_iff fundedBlocks fundedBroker fundedBroker_fits fundedPool
    (execute_guardedRun executed (by decide +kernel)) (chain ▸ fundedChain_onlyTouches) "0xg" 1
    (by decide +kernel)).mpr notOvertaken

/-- The first deposit is finalized and a pass runs; then the second one is indexed. -/
def overtakenSchedule : List (PoolAction World.Event Task) :=
  [.event (.reorg 0 ["0xa", "0xb"]), .event (.rows (.insert [(1, depositRow "0xt" 0 "0xa")])),
    .event (.rows (.finalize 0 1000)), .event (.becomeFinal 1),
    .spawn (.gatewayBackfill batchLimits false)] ++ steps 12 ++
    [.stop 0, .event (.rows (.insert [(2, depositRow "0xu" 1 "0xb")]))]

def overtakenPool : GatewayPool :=
  (execute (workload fundedBlocks fundedBroker).step GatewayPool.start overtakenSchedule).get
    (by decide +kernel)

/-- What the request answers. -/
def overtakenAnswer : GatewayBalanceRow :=
  (loadGatewayBalanceMaterialized "0xg" (some 1) overtakenPool.shared.db).get (by decide +kernel)

/-- **An overtaken snapshot is served**, without the second deposit. -/
theorem overtakenSnapshot_is_served :
    ¬ ∀ pool, Run (workload fundedBlocks fundedBroker).step GatewayPool.start pool →
      OnlyTouchesChange fundedBlocks fundedBroker pool.shared.chain → ∀ gateway, ∀ block : ℕ,
        IndexedUpTo fundedBlocks pool.shared block →
          BalanceExact fundedBlocks fundedBroker pool.shared gateway block := by
  intro law
  have executed : execute (workload fundedBlocks fundedBroker).step GatewayPool.start
      overtakenSchedule = some overtakenPool := (Option.some_get _).symm
  have chain : overtakenPool.shared.chain = ["0xa", "0xb"] := by decide +kernel
  have loaded : loadGatewayBalanceMaterialized "0xg" (some 1) overtakenPool.shared.db =
      some overtakenAnswer := (Option.some_get _).symm
  have exact_ := law overtakenPool (execute_run executed) (chain ▸ fundedChain_onlyTouches) "0xg" 1
    (by decide +kernel) _ overtakenAnswer (balanceAtBlock_stored (by decide) loaded)
  have wrong : answerState overtakenAnswer ≠ contractState fundedBroker "0xb" "0xg" := by
    decide +kernel
  exact wrong (exact_.1 "0xb" (by decide +kernel))

end ProtocolExplorer.Gateway
