import ProtocolExplorer.Gateway.FlowValuation

/-!
# What the gateway walks leave out

The progress of each walk is a block number.  A query asks for what is missing at or above the
checkpoint, so an event that becomes final below it, or below what a pass in flight has already
fetched, is not asked for again.

* `DoneBelow` — everything required below a block is stored;
* `catchUp_respected` — every program moves a checkpoint only over blocks that are done;
* `walks_lose_nothing` — **in every run that finalizes no event below the scanned blocks unless
  its rows are stored, walks that have caught up have stored every row and snapshot**;
* `lateEvent_is_lost` — a patch backfill below the checkpoint.
-/

set_option autoImplicit false

namespace ProtocolExplorer.Gateway

open ProtocolExplorer.Lib
open ProtocolExplorer.Store
open ProtocolExplorer.Indexer

/-! ## What is required -/

/-- The key of a row that the walks write. -/
inductive SnapshotKey where
  | flow (eventId : ℤ) (flowKind : FlowKind)
  | claimant (gateway claimant : Address) (block : ℤ)
  | balance (gateway : Address) (block : ℤ)
  deriving DecidableEq

/-- There is a row of this key. -/
def Stored (db : Db) : SnapshotKey → Prop
  | .flow eventId flowKind => (eventId, flowKind) ∈ db.gatewayFlows
  | .claimant gateway claimant block => (gateway, claimant, block) ∈ db.gatewayClaimantsByBlock
  | .balance gateway block => (gateway, block) ∈ db.gatewayBalancesByBlock

instance (db : Db) : ∀ key, Decidable (Stored db key)
  | .flow eventId flowKind => inferInstanceAs (Decidable ((eventId, flowKind) ∈ db.gatewayFlows))
  | .claimant gateway claimant block => inferInstanceAs (Decidable
      ((gateway, claimant, block) ∈ db.gatewayClaimantsByBlock))
  | .balance gateway block => inferInstanceAs (Decidable
      ((gateway, block) ∈ db.gatewayBalancesByBlock))

/-- The kinds of event each walk lists. -/
def listedEvents : GatewayAxis → List EventName
  | .flow => flowEvents
  | .claimant => claimantEvents
  | .balance => touchEvents

/-- The rows an event of a walk stands for. -/
def keysOf : GatewayAxis → RawEvent → List SnapshotKey
  | .flow, e => [.flow e.id (flowKindOf e.eventName)]
  | .claimant, e => e.fromAddress.toList.flatMap fun gateway => e.toAddress.toList.map
      fun claimant => .claimant gateway claimant e.blockNumber
  | .balance, e => e.fromAddress.toList.map fun gateway => .balance gateway e.blockNumber

/-- The rows a finalized canonical event requires of a walk. -/
def requiredKeys (axis : GatewayAxis) (e : RawEvent) : List SnapshotKey :=
  if brokerEvent (listedEvents axis) false e = true then keysOf axis e else []

/-! ## The law and its condition -/

/-- A pass would find nothing to do. -/
def CaughtUp (w : World) : Prop :=
  fetchFlowCandidatesAfter false (w.db.loadCheckpoint (.gateway .flow)) 1 w.db = [] ∧
    fetchClaimantCandidatesAfter false (w.db.loadCheckpoint (.gateway .claimant)) 1 w.db = [] ∧
    fetchBalanceCandidatesAfter false (w.db.loadCheckpoint (.gateway .balance)) 1 w.db = []

instance (w : World) : Decidable (CaughtUp w) := inferInstanceAs (Decidable (_ ∧ _))

/-- Everything that the finalized canonical events require is stored. -/
def Complete (w : World) : Prop :=
  ∀ axis, ∀ e ∈ w.db.rawProtocolEvents, ∀ key ∈ requiredKeys axis e, Stored w.db key

instance (w : World) : Decidable (Complete w) :=
  inferInstanceAs (Decidable (∀ axis, ∀ e ∈ w.db.rawProtocolEvents, ∀ key ∈ requiredKeys axis e,
    Stored w.db key))

/-- Below what a walk has scanned, an event that is final afterwards was final before, or what it
requires is stored. -/
def overtakesNothing (w : World) (e : World.Event) : Prop :=
  ∀ w' ∈ w.occur e, ∀ axis, ∀ scanned ∈ w.scanned axis, ∀ x ∈ w'.db.rawProtocolEvents,
    x.blockNumber < scanned → ∀ key ∈ requiredKeys axis x,
      x ∈ w.db.rawProtocolEvents ∨ Stored w.db key

instance (w : World) (e : World.Event) : Decidable (overtakesNothing w e) :=
  inferInstanceAs (Decidable (∀ w' ∈ w.occur e, ∀ axis, ∀ scanned ∈ w.scanned axis,
    ∀ x ∈ w'.db.rawProtocolEvents, x.blockNumber < scanned → ∀ key ∈ requiredKeys axis x,
      x ∈ w.db.rawProtocolEvents ∨ Stored w.db key))

/-- The condition of the law. -/
abbrev inBlockOrder : Discipline World World.Event Task GatewayOp :=
  ⟨overtakesNothing, fun _ _ => True, fun _ _ => True⟩

/-! ## The protocol -/

/-- Below the block, which has been scanned, everything required is stored or still to be
written. -/
structure Pending (axis : GatewayAxis) (block : ℤ) (toWrite : List SnapshotKey) (w : World) :
    Prop where
  scanned : ∃ last ∈ w.scanned axis, block ≤ last
  keys : ∀ e ∈ w.db.rawProtocolEvents, e.blockNumber < block → ∀ key ∈ requiredKeys axis e,
    Stored w.db key ∨ key ∈ toWrite

/-- Below the block everything required is stored. -/
abbrev DoneBelow (axis : GatewayAxis) (block : ℤ) (w : World) : Prop := Pending axis block [] w

/-- Rows stay, scanning goes up, and no event turns up below it without its rows. -/
structure Evolves (w w' : World) : Prop where
  stored : ∀ key, Stored w.db key → Stored w'.db key
  scanned : ∀ axis, ∀ last ∈ w.scanned axis, ∃ last' ∈ w'.scanned axis, last ≤ last'
  events : ∀ axis, ∀ last ∈ w.scanned axis, ∀ e ∈ w'.db.rawProtocolEvents, e.blockNumber < last →
    ∀ key ∈ requiredKeys axis e, e ∈ w.db.rawProtocolEvents ∨ Stored w'.db key

def catchUp : Protocol World where
  inv w := ∀ axis, ∀ block ∈ w.db.loadCheckpoint (.gateway axis), DoneBelow axis block w
  evolves := Evolves
  refl w := ⟨fun _ stored => stored, fun _ last scanned => ⟨last, scanned, le_refl last⟩,
    fun _ _ _ _ member _ _ _ => Or.inl member⟩
  trans := by
    intro a b c first second
    refine ⟨fun key stored => second.stored key (first.stored key stored), ?_, ?_⟩
    · intro axis last scanned
      obtain ⟨middle, scanned', le⟩ := first.scanned axis last scanned
      obtain ⟨latest, scanned'', le'⟩ := second.scanned axis middle scanned'
      exact ⟨latest, scanned'', le_trans le le'⟩
    · intro axis last scanned e member below key required
      obtain ⟨middle, scanned', le⟩ := first.scanned axis last scanned
      rcases second.events axis middle scanned' e member (lt_of_lt_of_le below le) key required with
        old | stored
      · exact (first.events axis last scanned e old below key required).imp_right
          (second.stored key)
      · exact Or.inr stored

variable {blocks : BlockHash → Block} {broker : BlockHash → (call : BrokerCall) → call.Answer}
  {w w' : World} {axis : GatewayAxis} {block : ℤ} {toWrite : List SnapshotKey}

/-- What is pending stays pending. -/
theorem Pending.later (pending : Pending axis block toWrite w) (moved : Evolves w w') :
    Pending axis block toWrite w' := by
  obtain ⟨last, scanned, le⟩ := pending.scanned
  refine ⟨?_, fun e member below key required => ?_⟩
  · obtain ⟨last', scanned', le'⟩ := moved.scanned axis last scanned
    exact ⟨last', scanned', le_trans le le'⟩
  · rcases moved.events axis last scanned e member (lt_of_lt_of_le below le) key required with
      old | stored
    · exact (pending.keys e old below key required).imp_left (moved.stored key)
    · exact Or.inl stored

/-- Rows are only added. -/
theorem stored_written (db : Db) (op : GatewayOp) {key : SnapshotKey} (stored : Stored db key) :
    Stored (World.written db op) key := by
  cases op with
  | upsertGatewayFlow c =>
      cases key with
      | flow eventId flowKind => exact Table.mem_upsert.mpr (Or.inr stored)
      | _ => exact stored
  | upsertGatewayClaimant gateway claimant block row =>
      cases key with
      | claimant other claimant' block' => exact Table.mem_upsert.mpr (Or.inr stored)
      | _ => exact stored
  | upsertGatewayBalance gateway block row =>
      cases key with
      | balance other block' => exact Table.mem_upsert.mpr (Or.inr stored)
      | _ => exact stored
  | _ => cases key <;> exact stored

theorem evolves_act {op : GatewayOp} {answer : op.Answer}
    (acted : w.act blocks broker op = some (w', answer)) : Evolves w w' := by
  obtain ⟨_, _, same⟩ := World.act_frame acted
  refine ⟨fun key stored => ?_, fun axis last scanned => ?_, fun _ _ _ e member _ _ _ => ?_⟩
  · rw [same]
    exact stored_written _ _ stored
  · rcases World.act_scanned acted with unmoved | ⟨walk, batch, moved⟩
    · exact ⟨last, by rwa [unmoved], le_refl last⟩
    · rw [moved]
      exact World.exists_scanned_of_scan w walk batch scanned
  · rw [same, World.written_rawProtocolEvents] at member
    exact Or.inl member

/-- Events move no checkpoint and keep what is stored. -/
theorem occur_frame {e : World.Event} (occurred : w.occur e = some w') :
    w'.scanned = w.scanned ∧ w'.db.indexerCheckpoints = w.db.indexerCheckpoints ∧
      ∀ key, Stored w.db key → Stored w'.db key := by
  cases e with
  | rows a =>
      obtain ⟨events, _, rfl⟩ := Option.map_eq_some_iff.mp occurred
      exact ⟨rfl, rfl, fun key stored => by cases key <;> exact stored⟩
  | value row =>
      cases occurred
      exact ⟨rfl, rfl, fun key stored => by cases key <;> exact stored⟩
  | _ =>
      simp only [World.occur, Option.ite_none_right_eq_some, Option.some.injEq] at occurred
      obtain ⟨_, rfl⟩ := occurred
      exact ⟨rfl, rfl, fun key stored => stored⟩

theorem evolves_occur {e : World.Event} (allowed : overtakesNothing w e)
    (occurred : w.occur e = some w') : Evolves w w' := by
  obtain ⟨unmoved, _, keeps⟩ := occur_frame occurred
  refine ⟨keeps, fun axis last scanned => ⟨last, by rwa [unmoved], le_refl last⟩, ?_⟩
  intro axis last scanned x member below key required
  exact (allowed w' occurred axis last scanned x member below key required).imp_right (keeps key)

/-! ## Statements -/

/-- A statement keeps the checkpoints over done blocks if it moves one only to a done block. -/
theorem catchUp_act {op : GatewayOp} {answer : op.Answer} (sound : catchUp.inv w)
    (acted : w.act blocks broker op = some (w', answer))
    (advances : ∀ axis block, op = .advanceGatewayCheckpoint axis block → DoneBelow axis block w) :
    catchUp.inv w' ∧ catchUp.evolves w w' := by
  have moved : Evolves w w' := evolves_act acted
  refine ⟨fun axis block loaded => ?_, moved⟩
  obtain ⟨_, _, same⟩ := World.act_frame acted
  rw [same] at loaded
  cases op with
  | advanceGatewayCheckpoint other next =>
      have here := advances other next rfl
      have loaded' : (w.db.advanceCheckpoint (.gateway other) next).loadCheckpoint
          (.gateway axis) = some block := loaded
      rw [Db.loadCheckpoint_advanceCheckpoint] at loaded'
      split at loaded'
      · next sameAxis =>
          cases sameAxis
          cases stored : w.db.loadCheckpoint (.gateway axis) with
          | none =>
              rw [stored] at loaded'
              cases loaded'
              exact here.later moved
          | some previous =>
              rw [stored] at loaded'
              cases loaded'
              rcases max_choice previous next with isPrevious | isNext
              · rw [Option.elim_some, isPrevious]
                exact (sound axis previous stored).later moved
              · rw [Option.elim_some, isNext]
                exact here.later moved
      · exact (sound axis block loaded').later moved
  | _ => exact (sound axis block loaded).later moved

/-- A statement that moves no checkpoint. -/
def movesNoCheckpoint : GatewayOp → Prop
  | .advanceGatewayCheckpoint .. => False
  | _ => True

theorem catchUp_keeps (s : World) (op : GatewayOp) (s' : World) (answer : op.Answer)
    (sound : catchUp.inv s) (_ : inBlockOrder.op s op) (permitted : movesNoCheckpoint op)
    (acted : (workload blocks broker).act s op = some (s', answer)) :
    catchUp.inv s' ∧ catchUp.evolves s s' := by
  refine catchUp_act sound acted fun axis block same => ?_
  subst same
  exact absurd permitted id

theorem movesNoCheckpoint_of_requestOp {gateway : Address} (op : GatewayOp)
    (permitted : requestOp gateway op) : movesNoCheckpoint op := by
  cases op with
  | advanceGatewayCheckpoint axis block => exact permitted
  | _ => trivial

/-- A program that moves no checkpoint, in front of one that needs a lasting fact. -/
theorem catchUp_silent {α : Type} {p : Program α} {fact : World → Prop}
    (lasting : ∀ s s', Evolves s s' → fact s → fact s') (uses : p.Uses movesNoCheckpoint)
    (known : fact w) : Ensures (workload blocks broker) inBlockOrder catchUp (fun _ => fact) p w :=
  ensures_of_uses lasting (fun s op s' answer sound _ => catchUp_keeps s op s' answer sound) uses
    known

/-- Advancing to a block that is done, or not advancing. -/
theorem catchUp_advanceTo {block : Option ℤ}
    (done : ∀ last ∈ block, DoneBelow axis last w) :
    Ensures (workload blocks broker) inBlockOrder catchUp (fun _ _ => True) (advanceTo axis block)
      w := by
  cases block with
  | none => trivial
  | some last =>
      refine ensures_statement fun s moved sound _ s' answer acted => ?_
      have stepped : s.act blocks broker (.advanceGatewayCheckpoint axis last) =
          some (s', answer) := acted
      obtain ⟨kept, moved'⟩ := catchUp_act sound stepped fun other next same => by
        cases same
        exact (done last rfl).later moved
      exact ⟨kept, moved', trivial⟩

/-! ## What a query leaves out -/

theorem brokerEvent_of_final {names : List EventName} {e : RawEvent}
    (isFinal : brokerEvent names false e = true) (includeTentative : Bool) :
    brokerEvent names includeTentative e = true := by
  simp only [brokerEvent, RawEvent.eligible, Bool.and_eq_true, Bool.or_eq_true,
    decide_eq_true_eq] at isFinal ⊢
  obtain ⟨⟨⟨⟨canonical, isFinal⟩, contract⟩, listed⟩, sender⟩ := isFinal
  exact ⟨⟨⟨⟨canonical, isFinal.imp_left fun no => absurd no Bool.false_ne_true⟩, contract⟩, listed⟩, sender⟩

theorem exists_sender {names : List EventName} {includeTentative : Bool} {e : RawEvent}
    (listed : brokerEvent names includeTentative e = true) :
    ∃ gateway, e.fromAddress = some gateway := by
  simp only [brokerEvent, Bool.and_eq_true] at listed
  exact Option.isSome_iff_exists.mp listed.2

/-- Rows in lexicographic order are in the order of their blocks. -/
theorem block_le_of_position_le {β : Type} [LinearOrder β] {block block' : ℤ} {rank rank' : β}
    (le : toLex (block, rank) ≤ toLex (block', rank')) : block ≤ block' := by
  rcases Prod.Lex.toLex_le_toLex.mp le with less | ⟨same, _⟩
  · exact le_of_lt less
  · exact le_of_eq same

/-- Of a batch: what is required is stored, lies below where the query resumed, is among the
candidates, or lies at or after all of them, and the batch is not empty. -/
def LeavesOut (axis : GatewayAxis) (resumeFromBlock : Option ℤ) (limit : ℕ) {Candidate : Type}
    (block : Candidate → ℤ) (keys : Candidate → List SnapshotKey) (candidates : List Candidate)
    (db : Db) : Prop :=
  ∀ e ∈ db.rawProtocolEvents, ∀ key ∈ requiredKeys axis e,
    Stored db key ∨ (∃ from_ ∈ resumeFromBlock, e.blockNumber < from_) ∨
      (∃ c ∈ candidates, key ∈ keys c) ∨
      (0 < limit → candidates ≠ []) ∧ ∀ c ∈ candidates, block c ≤ e.blockNumber

/-- What is missing and not below the start is selected, and the batch is in block order. -/
theorem leavesOut_orderedBatch {Candidate β : Type} [LinearOrder β] {block : Candidate → ℤ}
    {position : Candidate → Lex (ℤ × β)} (rank : Candidate → β)
    (inOrder : ∀ c, position c = toLex (block c, rank c)) {keys : Candidate → List SnapshotKey}
    {resumeFromBlock : Option ℤ} {selection : List Candidate} {db : Db} (limit : ℕ)
    (selects : ∀ e ∈ db.rawProtocolEvents, ∀ key ∈ requiredKeys axis e, ¬ Stored db key →
      reached resumeFromBlock e.blockNumber = true →
        ∃ c ∈ selection, key ∈ keys c ∧ block c = e.blockNumber) :
    LeavesOut axis resumeFromBlock limit block keys (orderedBatch position limit selection) db := by
  intro e member key required
  by_cases stored : Stored db key
  · exact Or.inl stored
  refine Or.inr ?_
  by_cases reaches : reached resumeFromBlock e.blockNumber = true
  · refine Or.inr ?_
    obtain ⟨c, selected, own, sameBlock⟩ := selects e member key required stored reaches
    by_cases fetched : c ∈ orderedBatch position limit selection
    · exact Or.inl ⟨c, fetched, own⟩
    · refine Or.inr ⟨fun positive nothing => ?_, fun c' fetched' => ?_⟩
      · rw [(orderedBatch_eq_nil positive).mp nothing] at selected
        exact List.not_mem_nil selected
      have le := key_le_of_not_fetched fetched' selected fetched
      rw [inOrder, inOrder] at le
      exact sameBlock ▸ block_le_of_position_le le
  · refine Or.inl ?_
    cases resumeFromBlock with
    | none => exact absurd rfl reaches
    | some from_ => exact ⟨from_, rfl, by simpa [reached] using reaches⟩

/-- After the query, what lies below any of its candidates is done or about to be written. -/
theorem pending_of_batch {resumeFromBlock : Option ℤ} {limit : ℕ} {Candidate : Type} {block : Candidate → ℤ}
    {keys : Candidate → List SnapshotKey} {candidates : List Candidate}
    (leaves : LeavesOut axis resumeFromBlock limit block keys candidates w.db)
    (resumed : ∀ from_ ∈ resumeFromBlock, DoneBelow axis from_ w) {c : Candidate}
    (fetched : c ∈ candidates) (scanned : ∃ last ∈ w.scanned axis, block c ≤ last) :
    Pending axis (block c) (candidates.flatMap keys) w := by
  refine ⟨scanned, fun e member below key required => ?_⟩
  rcases leaves e member key required with stored | ⟨from_, resumes, less⟩ | ⟨c', listed, own⟩ |
    ⟨_, above⟩
  · exact Or.inl stored
  · exact Or.inl (((resumed from_ resumes).keys e member less key required).resolve_right
      List.not_mem_nil)
  · exact Or.inr (List.mem_flatMap.mpr ⟨c', listed, own⟩)
  · exact absurd (above c fetched) (not_le.mpr below)

/-- The row of a flow candidate. -/
def flowKey (c : GatewayFlowCandidate) : List SnapshotKey := [.flow c.eventId c.flowKind]

/-- The row of a claimant candidate. -/
def claimantKey (c : GatewayFlowCandidate) : List SnapshotKey :=
  c.claimantAddress.toList.map fun claimant => .claimant c.gatewayAddress claimant c.blockNumber

/-- The row of a balance candidate. -/
def balanceKey (c : GatewayCandidate) : List SnapshotKey := [.balance c.gatewayAddress c.blockNumber]

/-- The joined query returns a row for every event with a sender. -/
theorem exists_flowCandidate (db : Db) {e : RawEvent} {gateway : Address}
    (sender : e.fromAddress = some gateway) :
    ∃ c ∈ flowCandidatesOf db e, c.eventId = e.id ∧ c.flowKind = flowKindOf e.eventName ∧
      c.gatewayAddress = gateway ∧ c.claimantAddress = claimantOf e ∧
      c.blockNumber = e.blockNumber := by
  have joined : ∃ valuation, valuation ∈ joinedValuations db e.id := by
    unfold joinedValuations
    split
    · exact ⟨none, List.mem_singleton.mpr rfl⟩
    · next some_ =>
        obtain ⟨v, stored⟩ := List.exists_mem_of_ne_nil _ some_
        exact ⟨some v, List.mem_map_of_mem stored⟩
  obtain ⟨valuation, joined⟩ := joined
  refine ⟨_, List.mem_flatMap.mpr ⟨gateway, ?_, List.mem_map_of_mem joined⟩, rfl, rfl, rfl, rfl, rfl⟩
  rw [sender]
  exact List.mem_singleton.mpr rfl

theorem leavesOut_fetchFlowCandidates (includeTentative : Bool) (resumeFromBlock : Option ℤ)
    (limit : ℕ) (db : Db) :
    LeavesOut .flow resumeFromBlock limit (·.blockNumber) flowKey
      (fetchFlowCandidatesAfter includeTentative resumeFromBlock limit db) db := by
  refine leavesOut_orderedBatch GatewayFlowCandidate.logIndex (fun _ => rfl) limit
    fun e member key required missing reaches => ?_
  unfold requiredKeys at required
  split at required
  · next isFinal =>
      have listed : brokerEvent flowEvents includeTentative e = true := brokerEvent_of_final isFinal _
      rw [List.mem_singleton.mp required] at missing ⊢
      obtain ⟨gateway, sender⟩ := exists_sender listed
      obtain ⟨c, joined, sameId, sameKind, _, _, sameBlock⟩ := exists_flowCandidate db sender
      refine ⟨c, List.mem_flatMap.mpr ⟨e, List.mem_filter.mpr ⟨List.mem_filter.mpr
        ⟨member, ?_⟩, reaches⟩, joined⟩, ?_, sameBlock⟩
      · rw [listed, Bool.true_and, decide_eq_true_eq]
        exact missing
      · rw [flowKey, sameId, sameKind]
        exact List.mem_singleton_self _
  · exact absurd required List.not_mem_nil

theorem leavesOut_fetchClaimantCandidates (includeTentative : Bool) (resumeFromBlock : Option ℤ)
    (limit : ℕ) (db : Db) :
    LeavesOut .claimant resumeFromBlock limit (·.blockNumber) claimantKey
      (fetchClaimantCandidatesAfter includeTentative resumeFromBlock limit db) db := by
  refine leavesOut_orderedBatch GatewayFlowCandidate.logIndex (fun _ => rfl) limit
    fun e member key required missing reaches => ?_
  unfold requiredKeys at required
  split at required
  · next isFinal =>
      have listed : brokerEvent claimantEvents includeTentative e = true :=
        brokerEvent_of_final isFinal _
      obtain ⟨gateway, sender, required⟩ := List.mem_flatMap.mp required
      obtain ⟨claimant, receiver, rfl⟩ := List.mem_map.mp required
      rw [Option.mem_toList] at sender receiver
      have claims : claimantOf e = some claimant := by
        simp only [brokerEvent, Bool.and_eq_true, decide_eq_true_eq] at listed
        rw [claimantOf, if_pos listed.1.2, receiver]
      obtain ⟨c, joined, _, _, sameGateway, sameClaimant, sameBlock⟩ :=
        exists_flowCandidate db sender
      refine ⟨c, List.mem_flatMap.mpr ⟨e, List.mem_filter.mpr ⟨List.mem_filter.mpr
        ⟨member, ?_⟩, reaches⟩, joined⟩, ?_, sameBlock⟩
      · simp only [listed, sender, receiver, Option.isSome_some, Bool.true_and, Option.toList_some,
          List.all_cons, List.all_nil, Bool.and_true, decide_eq_true_eq]
        exact missing
      · rw [claimantKey, sameClaimant, claims, sameGateway, sameBlock]
        exact List.mem_singleton_self _
  · exact absurd required List.not_mem_nil

theorem leavesOut_fetchBalanceCandidates (includeTentative : Bool) (resumeFromBlock : Option ℤ)
    (limit : ℕ) (db : Db) :
    LeavesOut .balance resumeFromBlock limit (·.blockNumber) balanceKey
      (fetchBalanceCandidatesAfter includeTentative resumeFromBlock limit db) db := by
  refine leavesOut_orderedBatch GatewayCandidate.gatewayAddress (fun _ => rfl) limit
    fun e member key required missing reaches => ?_
  unfold requiredKeys at required
  split at required
  · next isFinal =>
      have listed : brokerEvent touchEvents includeTentative e = true :=
        brokerEvent_of_final isFinal _
      obtain ⟨gateway, sender, rfl⟩ := List.mem_map.mp required
      rw [Option.mem_toList] at sender
      -- the latest touch of the gateway in this block stands for the event
      have inOrder : e ∈ orderBy (fun e : RawEvent => OrderDual.toDual e.logIndex)
          (db.rawProtocolEvents.filter (brokerEvent touchEvents includeTentative)) :=
        mem_orderBy.mpr (List.mem_filter.mpr ⟨member, listed⟩)
      obtain ⟨last, kept, same⟩ : ∃ last ∈ distinctOn
          (fun e : RawEvent => (e.fromAddress, e.blockNumber))
          (orderBy (fun e : RawEvent => OrderDual.toDual e.logIndex)
            (db.rawProtocolEvents.filter (brokerEvent touchEvents includeTentative))),
            (last.fromAddress, last.blockNumber) = (e.fromAddress, e.blockNumber) :=
        exists_mem_distinctOn inOrder
      obtain ⟨sameSender, sameBlock⟩ := Prod.mk.inj same
      have stands : last.fromAddress = some gateway := sameSender.trans sender
      have listedTouch : .ofTouch gateway last ∈ latestTouches includeTentative db :=
        List.mem_flatMap.mpr ⟨last, kept, List.mem_map.mpr
          ⟨gateway, Option.mem_toList.mpr stands, rfl⟩⟩
      refine ⟨_, List.mem_filter.mpr ⟨List.mem_filter.mpr ⟨listedTouch, ?_⟩, ?_⟩, ?_, sameBlock⟩
      · rw [decide_eq_true_eq, GatewayCandidate.ofTouch, sameBlock]
        exact missing
      · rw [GatewayCandidate.ofTouch, sameBlock]
        exact reaches
      · rw [balanceKey, GatewayCandidate.ofTouch, sameBlock]
        exact List.mem_singleton_self _
  · exact absurd required List.not_mem_nil

/-! ## Programs -/

/-- Below the last block of a batch, what the rest of the loop will write is pending. -/
def PendingBelow (axis : GatewayAxis) (last : Option ℤ) {Candidate : Type}
    (keys : Candidate → List SnapshotKey) (rest : List Candidate) (w : World) : Prop :=
  ∀ block ∈ last, Pending axis block (rest.flatMap keys) w

theorem PendingBelow.later {last : Option ℤ} {Candidate : Type}
    {keys : Candidate → List SnapshotKey} {rest : List Candidate}
    (pending : PendingBelow axis last keys rest w) (moved : Evolves w w') :
    PendingBelow axis last keys rest w' :=
  fun block isLast => (pending block isLast).later moved

/-- An iteration of a loop ends with the rows of its candidate stored. -/
theorem pendingBelow_iteration {last : Option ℤ} {Candidate : Type}
    {keys : Candidate → List SnapshotKey} {c : Candidate} {rest : List Candidate}
    (pending : PendingBelow axis last keys (c :: rest) w) (moved : Evolves w w')
    (stored : ∀ key ∈ keys c, Stored w'.db key) : PendingBelow axis last keys rest w' := by
  intro block isLast
  have still := (pending block isLast).later moved
  refine ⟨still.scanned, fun e member below key required => ?_⟩
  rcases still.keys e member below key required with done | todo
  · exact Or.inl done
  · rcases List.mem_append.mp (List.flatMap_cons ▸ todo) with own | others
    · exact Or.inl (stored key own)
    · exact Or.inr others

/-- A loop that stores the rows of its candidates, and the advance behind it. -/
theorem catchUp_walk {Candidate : Type} {keys : Candidate → List SnapshotKey}
    {body : Candidate → Program PUnit} {candidates : List Candidate} {last : Option ℤ}
    (iteration : ∀ c s, catchUp.inv s → Ensures (workload blocks broker) inBlockOrder catchUp
      (fun _ s' => ∀ key ∈ keys c, Stored s'.db key) (body c) s)
    (sound : catchUp.inv w) (pending : PendingBelow axis last keys candidates w) :
    Ensures (workload blocks broker) inBlockOrder catchUp (fun _ _ => True)
      (do candidates.forM body; advanceTo axis last) w := by
  refine ensures_bind (Ensures.imp (ensures_forM body
    (PendingBelow axis last keys) ?_ sound pending) fun _ s done => ?_)
  · intro c rest s sound known
    refine (iteration c s sound).mono sound fun _ s' _ moved stored => ?_
    exact pendingBelow_iteration known moved stored
  · exact catchUp_advanceTo fun block isLast => done block isLast

/-- An upsert of the rows of a candidate. -/
theorem catchUp_upsert {op : GatewayOp} (key : SnapshotKey) (permitted : movesNoCheckpoint op)
    (stores : ∀ db, Stored (World.written db op) key) :
    Ensures (workload blocks broker) inBlockOrder catchUp (fun _ s => Stored s.db key) (ask op)
      w := by
  refine ensures_query catchUp_keeps permitted fun s s' answer _ _ _ acted => ?_
  obtain ⟨_, _, same⟩ := World.act_frame acted
  exact same ▸ stores s.db

theorem catchUp_snapshotBalance (c : GatewayCandidate) :
    Ensures (workload blocks broker) inBlockOrder catchUp
      (fun _ s => ∀ key ∈ balanceKey c, Stored s.db key) (snapshotBalance c) w := by
  refine ensures_bind (ensures_bind (ensures_query catchUp_keeps trivial fun _ _ sender _ _ _ _ =>
    ensures_bind (ensures_query catchUp_keeps trivial fun _ s unlock _ _ _ _ => ?_)))
  let row := (snapshotOf sender unlock).row c.blockTimestamp c.blockHash (some c.eventId)
  show Ensures _ _ _ _ (ask (.upsertGatewayBalance c.gatewayAddress c.blockNumber row)) s
  refine Ensures.imp (catchUp_upsert (.balance c.gatewayAddress c.blockNumber) ?_ ?_)
    fun _ s' stored key own => ?_
  · trivial
  · exact fun db => Table.mem_upsert.mpr (Or.inl rfl)
  · rw [List.mem_singleton.mp own]
    exact stored

theorem catchUp_upsertFlow (c : GatewayFlowCandidate) (s : World) (_ : catchUp.inv s) :
    Ensures (workload blocks broker) inBlockOrder catchUp
      (fun _ s' => ∀ key ∈ flowKey c, Stored s'.db key) (ask (.upsertGatewayFlow c)) s := by
  refine Ensures.imp (catchUp_upsert (.flow c.eventId c.flowKind) ?_ ?_) fun _ s' stored key own => ?_
  · trivial
  · exact fun db => Table.mem_upsert.mpr (Or.inl rfl)
  · rw [List.mem_singleton.mp own]
    exact stored

theorem catchUp_snapshotClaimant (c : GatewayFlowCandidate) :
    Ensures (workload blocks broker) inBlockOrder catchUp
      (fun _ s => ∀ key ∈ claimantKey c, Stored s.db key) (snapshotClaimant c) w := by
  unfold snapshotClaimant claimantKey
  cases c.claimantAddress with
  | none => exact fun key own => absurd own List.not_mem_nil
  | some claimant =>
      refine ensures_bind (ensures_query catchUp_keeps trivial fun _ _ claimable _ _ _ _ =>
        ensures_bind (ensures_query catchUp_keeps trivial fun _ s claimed _ _ _ _ => ?_))
      refine Ensures.imp (catchUp_upsert (.claimant c.gatewayAddress claimant c.blockNumber) ?_ ?_)
        fun _ s' stored key own => ?_
      · trivial
      · exact fun db => Table.mem_upsert.mpr (Or.inl rfl)
      · rw [List.mem_singleton.mp own]
        exact stored

/-- The block of any candidate of a batch may be what the loop over the batch advances to. -/
theorem pendingBelow_of_batch {resumeFromBlock : Option ℤ} {limit : ℕ} {Candidate : Type}
    {block : Candidate → ℤ} {keys : Candidate → List SnapshotKey} {candidates : List Candidate}
    {last : Option ℤ} (leaves : LeavesOut axis resumeFromBlock limit block keys candidates w.db)
    (resumed : ∀ from_ ∈ resumeFromBlock, DoneBelow axis from_ w) (before : World)
    (scanned : w.scanned axis = (before.scan axis (candidates.map block)).scanned axis)
    (ofBatch : ∀ b ∈ last, (∃ c ∈ candidates, block c = b) ∨ candidates = [] ∧ b ∈ resumeFromBlock) :
    PendingBelow axis last keys candidates w := by
  intro b isLast
  rcases ofBatch b isLast with ⟨c, fetched, rfl⟩ | ⟨rfl, repeated⟩
  · refine pending_of_batch leaves resumed fetched ?_
    rw [scanned]
    exact World.exists_scanned_scan before axis _ (Or.inl (List.mem_map_of_mem fetched))
  · exact resumed b repeated

/-- The flow query. -/
theorem pendingBelow_flows {includeTentative : Bool} {resumeFromBlock : Option ℤ} {limit : ℕ}
    {flows : List GatewayFlowCandidate}
    (acted : (workload blocks broker).act w
      (.fetchFlowCandidatesAfter includeTentative resumeFromBlock limit) = some (w', flows))
    (resumed : ∀ from_ ∈ resumeFromBlock, DoneBelow .flow from_ w') :
    PendingBelow .flow (flows.getLast?.map (·.blockNumber)) flowKey flows w' := by
  cases acted
  refine pendingBelow_of_batch (leavesOut_fetchFlowCandidates includeTentative resumeFromBlock limit
    w.db) resumed w rfl fun b isLast => ?_
  obtain ⟨c, last, rfl⟩ := Option.map_eq_some_iff.mp isLast
  exact Or.inl ⟨c, List.mem_of_getLast? last, rfl⟩

/-- The claimant query. -/
theorem pendingBelow_claimants {includeTentative : Bool} {resumeFromBlock : Option ℤ} {limit : ℕ}
    {claimants : List GatewayFlowCandidate}
    (acted : (workload blocks broker).act w
      (.fetchClaimantCandidatesAfter includeTentative resumeFromBlock limit) = some (w', claimants))
    (resumed : ∀ from_ ∈ resumeFromBlock, DoneBelow .claimant from_ w') :
    PendingBelow .claimant
      ((claimants.filter (·.claimantAddress.isSome)).getLast?.map (·.blockNumber)) claimantKey
      claimants w' := by
  cases acted
  refine pendingBelow_of_batch (leavesOut_fetchClaimantCandidates includeTentative resumeFromBlock
    limit w.db) resumed w rfl fun b isLast => ?_
  obtain ⟨c, last, rfl⟩ := Option.map_eq_some_iff.mp isLast
  exact Or.inl ⟨c, (List.mem_filter.mp (List.mem_of_getLast? last)).1, rfl⟩

/-- The balance query; an empty batch repeats the checkpoint. -/
theorem pendingBelow_balances {includeTentative : Bool} {resumeFromBlock : Option ℤ} {limit : ℕ}
    {balances : List GatewayCandidate}
    (acted : (workload blocks broker).act w
      (.fetchBalanceCandidatesAfter includeTentative resumeFromBlock limit) = some (w', balances))
    (resumed : ∀ from_ ∈ resumeFromBlock, DoneBelow .balance from_ w') :
    PendingBelow .balance ((balances.getLast?.map (·.blockNumber)).or resumeFromBlock) balanceKey
      balances w' := by
  cases acted
  refine pendingBelow_of_batch (leavesOut_fetchBalanceCandidates includeTentative resumeFromBlock
    limit w.db) resumed w rfl fun b isLast => ?_
  cases last : (fetchBalanceCandidatesAfter includeTentative resumeFromBlock limit w.db).getLast? with
  | none =>
      rw [last] at isLast
      exact Or.inr ⟨List.getLast?_eq_none_iff.mp last, isLast⟩
  | some c =>
      rw [last] at isLast
      exact Or.inl ⟨c, List.mem_of_getLast? last, Option.some.inj isLast⟩

/-- **The gateway pass moves a checkpoint only over blocks that are done.** -/
theorem catchUp_runGatewayBackfill (limits : BatchLimits) (includeTentative : Bool) :
    Ensures (workload blocks broker) inBlockOrder catchUp (fun _ _ => True)
      (runGatewayBackfill limits includeTentative) w := by
  refine ensures_bind (ensures_query catchUp_keeps trivial
    fun _ s₁ (flow : Option ℤ) _ sound _ acted => ?_)
  have flowDone : ∀ from_ ∈ flow, DoneBelow .flow from_ s₁ := by
    cases acted
    exact sound .flow
  refine ensures_bind (ensures_query catchUp_keeps trivial
    fun _ s₂ (claimant : Option ℤ) moved₂ sound _ acted => ?_)
  have claimantDone : ∀ from_ ∈ claimant, DoneBelow .claimant from_ s₂ := by
    cases acted
    exact sound .claimant
  refine ensures_bind (ensures_query catchUp_keeps trivial
    fun _ s₃ (balance : Option ℤ) moved₃ sound _ acted => ?_)
  have balanceDone : ∀ from_ ∈ balance, DoneBelow .balance from_ s₃ := by
    cases acted
    exact sound .balance
  -- each query is answered before the first loop, which is when its batch becomes pending
  refine ensures_bind (ensures_query catchUp_keeps trivial
    fun t₄ s₄ (flows : List GatewayFlowCandidate) moved₄ _ _ acted => ?_)
  have flowsPending := pendingBelow_flows acted fun from_ loaded =>
    (flowDone from_ loaded).later (catchUp.trans moved₂ (catchUp.trans moved₃ moved₄))
  refine ensures_bind (ensures_query catchUp_keeps trivial
    fun t₅ s₅ (claimants : List GatewayFlowCandidate) moved₅ _ _ acted => ?_)
  have claimantsPending := pendingBelow_claimants acted fun from_ loaded =>
    (claimantDone from_ loaded).later (catchUp.trans moved₃ (catchUp.trans moved₄ moved₅))
  refine ensures_bind (ensures_query catchUp_keeps trivial
    fun t₆ s₆ (balances : List GatewayCandidate) moved₆ sound₆ _ acted => ?_)
  have balancesPending := pendingBelow_balances acted fun from_ loaded =>
    (balanceDone from_ loaded).later (catchUp.trans moved₄ (catchUp.trans moved₅ moved₆))
  -- the three loops; what the later ones have still to write stays pending meanwhile
  refine ensures_bind ((catchUp_walk catchUp_upsertFlow sound₆
    (flowsPending.later (catchUp.trans moved₅ moved₆))).mono sound₆ fun _ s₇ sound₇ moved₇ _ => ?_)
  refine ensures_bind ((catchUp_walk (fun c _ _ => catchUp_snapshotClaimant c) sound₇
    (claimantsPending.later (catchUp.trans moved₆ moved₇))).mono sound₇
      fun _ s₈ sound₈ moved₈ _ => ?_)
  exact catchUp_walk (fun c _ _ => catchUp_snapshotBalance c) sound₈
    (balancesPending.later (catchUp.trans moved₇ moved₈))

theorem catchUp_respected : Respects (workload blocks broker) inBlockOrder catchUp where
  event s e s' sound allowed occurred := by
    have moved : Evolves s s' := evolves_occur allowed occurred
    refine ⟨fun axis block loaded => ?_, moved⟩
    obtain ⟨_, unmoved, _⟩ := occur_frame occurred
    rw [Db.loadCheckpoint, unmoved] at loaded
    exact (sound axis block loaded).later moved
  program s task _ _ := by
    cases task with
    | gatewayBackfill limits includeTentative =>
        exact catchUp_runGatewayBackfill limits includeTentative
    | balanceLatest gateway =>
        exact catchUp_silent (fun _ _ _ known => known)
          ((Process.uses_map uses_balanceLatest).mono movesNoCheckpoint_of_requestOp) trivial
    | balanceAtBlock gateway block =>
        exact catchUp_silent (fun _ _ _ known => known)
          ((Process.uses_map (uses_balanceAtBlock block)).mono movesNoCheckpoint_of_requestOp)
          trivial

/-! ## The law -/

/-- When a query finds nothing, everything required is stored. -/
theorem stored_of_idle {resumeFromBlock : Option ℤ} {limit : ℕ} (positive : 0 < limit)
    {Candidate : Type} {block : Candidate → ℤ} {keys : Candidate → List SnapshotKey}
    {candidates : List Candidate} (idle : candidates = [])
    (leaves : LeavesOut axis resumeFromBlock limit block keys candidates w.db)
    (resumed : ∀ from_ ∈ resumeFromBlock, DoneBelow axis from_ w) {e : RawEvent}
    (member : e ∈ w.db.rawProtocolEvents) {key : SnapshotKey} (required : key ∈ requiredKeys axis e) :
    Stored w.db key := by
  subst idle
  rcases leaves e member key required with stored | ⟨from_, resumes, less⟩ | ⟨c, listed, _⟩ |
    ⟨some_, _⟩
  · exact stored
  · exact ((resumed from_ resumes).keys e member less key required).resolve_right List.not_mem_nil
  · exact absurd listed List.not_mem_nil
  · exact absurd rfl (some_ positive)

/-- Checkpoints over done blocks and nothing left to do: everything is stored. -/
theorem complete_of_caughtUp (sound : catchUp.inv w) (caughtUp : CaughtUp w) : Complete w := by
  obtain ⟨flowIdle, claimantIdle, balanceIdle⟩ := caughtUp
  intro axis e member key required
  cases axis with
  | flow =>
      exact stored_of_idle Nat.one_pos flowIdle (leavesOut_fetchFlowCandidates false _ 1 w.db)
        (sound .flow) member required
  | claimant =>
      exact stored_of_idle Nat.one_pos claimantIdle
        (leavesOut_fetchClaimantCandidates false _ 1 w.db) (sound .claimant) member required
  | balance =>
      exact stored_of_idle Nat.one_pos balanceIdle
        (leavesOut_fetchBalanceCandidates false _ 1 w.db) (sound .balance) member required

/-- **A walk that has caught up has stored every row and snapshot**, in every state of every run
that keeps the condition. -/
theorem walks_lose_nothing (blocks : BlockHash → Block)
    (broker : BlockHash → (call : BrokerCall) → call.Answer) (pool : GatewayPool)
    (ran : GuardedRun (workload blocks broker).step inBlockOrder.allows GatewayPool.start pool)
    (caughtUp : CaughtUp pool.shared) : Complete pool.shared := by
  have start : Pool.Sound (workload blocks broker) inBlockOrder catchUp GatewayPool.start :=
    ⟨fun _ _ loaded => (nomatch loaded), fun _ member => absurd member List.not_mem_nil⟩
  exact complete_of_caughtUp (catchUp_respected.run start ran).1.inv caughtUp

/-! ## Events in block order and a patch -/

/-- A ticket of the gateway is redeemed. -/
def redeemedRow (txHash : TxHash) (blockNumber : ℤ) (blockHash : BlockHash) : PreparedRow :=
  { depositRow txHash blockNumber blockHash with
    eventName := .WinningTicketRedeemed
    toAddress := some "0xo"
    amount_of_asset := amount_given }

/-- Passes of one row a walk: the first takes the deposit and the claimant, the second the rest. -/
def orderlyPasses : List (PoolAction World.Event Task) :=
  [.event (.reorg 0 ["0xa", "0xb"]), .event (.rows (.insert [(1, depositRow "0xt" 0 "0xa"),
    (2, redeemedRow "0xu" 1 "0xb")])), .event (.rows (.finalize 0 1000)),
    .spawn (.gatewayBackfill ⟨1, 1, 1⟩ false)] ++ steps 16 ++
    [.stop 0, .spawn (.gatewayBackfill ⟨1, 1, 1⟩ false)] ++ steps 12

def orderlyPool : GatewayPool :=
  (execute (workload emptyBlocks unusedBroker).step GatewayPool.start orderlyPasses).get
    (by decide +kernel)

/-- Both events have their rows. -/
theorem orderlyPasses_lose_nothing :
    CaughtUp orderlyPool.shared ∧ orderlyPool.shared.db.gatewayFlows.keys.card = 2 ∧
      Complete orderlyPool.shared := by
  have executed : execute (workload emptyBlocks unusedBroker).step GatewayPool.start
      orderlyPasses = some orderlyPool := (Option.some_get _).symm
  have caughtUp : CaughtUp orderlyPool.shared := by decide +kernel
  refine ⟨caughtUp, by decide +kernel, ?_⟩
  exact walks_lose_nothing emptyBlocks unusedBroker orderlyPool
    (execute_guardedRun executed (by decide +kernel)) caughtUp

/-- The redemption in block 1 is walked; then a patch run indexes the deposit in block 0. -/
def patchedPasses : List (PoolAction World.Event Task) :=
  [.event (.reorg 0 ["0xa", "0xb"]), .event (.rows (.insert [(1, redeemedRow "0xu" 1 "0xb")])),
    .event (.rows (.finalize 0 1000)), .spawn (.gatewayBackfill batchLimits false)] ++ steps 16 ++
    [.stop 0, .event (.rows (.insert [(2, depositRow "0xt" 0 "0xa")])),
      .event (.rows (.finalize 0 1000)), .spawn (.gatewayBackfill batchLimits false)] ++ steps 7

def patchedPool : GatewayPool :=
  (execute (workload emptyBlocks unusedBroker).step GatewayPool.start patchedPasses).get
    (by decide +kernel)

/-- **An event below the checkpoint is lost**: the walks have caught up and it has no row. -/
theorem lateEvent_is_lost :
    ¬ ∀ pool, Run (workload emptyBlocks unusedBroker).step GatewayPool.start pool →
      CaughtUp pool.shared → Complete pool.shared := by
  intro law
  have executed : execute (workload emptyBlocks unusedBroker).step GatewayPool.start
      patchedPasses = some patchedPool := (Option.some_get _).symm
  have incomplete : ¬ Complete patchedPool.shared := by decide +kernel
  exact incomplete (law patchedPool (execute_run executed) (by decide +kernel))

end ProtocolExplorer.Gateway
