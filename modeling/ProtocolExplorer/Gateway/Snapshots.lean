import ProtocolExplorer.Gateway.Completeness

/-!
# The chain a snapshot was read from

A snapshot is stored for good, a read of the contract is cached under its block number, and the
gateway pass skips the blocks that have a snapshot.  So a snapshot of a block that is replaced
afterwards stays.

* `canonical_respected` — every program stores what the contract says at a block of the present
  chain, statement by statement;
* `snapshots_canonical` — **in every run whose reorgs replace no block the contract was read at,
  and whose snapshots are stored while their touch is on the chain, every snapshot is right**;
* `orphanedSnapshot_stays` — a request between a deposit and the reorg that takes it back.
-/

set_option autoImplicit false

namespace ProtocolExplorer.Gateway

open ProtocolExplorer.Lib
open ProtocolExplorer.Store
open ProtocolExplorer.Indexer

/-! ## The law and its condition -/

/-- The deposit, the reserve, the withdraw round and the unlock flag of a gateway. -/
structure ContractState where
  deposit : Numeric
  reserve : Numeric
  withdrawRound : ℤ
  unlock : Bool
  deriving DecidableEq

/-- What two answers of the contract say. -/
def stateOf (sender : SenderInfo) (unlock : Bool) : ContractState where
  deposit := u256ToDecimal sender.deposit
  reserve := u256ToDecimal sender.fundsRemaining
  withdrawRound := sender.withdrawRound
  unlock := unlock

/-- What the contract returns in a block. -/
def contractState (broker : BlockHash → (call : BrokerCall) → call.Answer) (hash : BlockHash)
    (gateway : Address) : ContractState :=
  stateOf (broker hash (.getSenderInfo gateway)) (broker hash (.isUnlockInProgress gateway))

/-- What a snapshot says. -/
def snapshotState (row : GatewayBalance) : ContractState where
  deposit := row.deposit
  reserve := row.reserveFundsRemaining
  withdrawRound := row.withdrawRound
  unlock := row.unlockInProgress

/-- The snapshot carries the hash of the block and what the contract returns there. -/
def SnapshotRight (broker : BlockHash → (call : BrokerCall) → call.Answer) (w : World)
    (gateway : Address) (block : ℤ) (row : GatewayBalance) : Prop :=
  w.blockAt block = some row.blockHash ∧
    snapshotState row = contractState broker row.blockHash gateway

instance (broker : BlockHash → (call : BrokerCall) → call.Answer) (w : World) (gateway : Address)
    (block : ℤ) (row : GatewayBalance) : Decidable (SnapshotRight broker w gateway block row) :=
  inferInstanceAs (Decidable (_ ∧ _))

/-- Once the blocks up to `h` are final and the gateway walks have caught up, the snapshots at
these blocks are right. -/
def SnapshotsCanonical (broker : BlockHash → (call : BrokerCall) → call.Answer) (w : World)
    (h : ℕ) : Prop :=
  h < w.finalBlocks → CaughtUp w → ∀ key ∈ w.db.gatewayBalancesByBlock.keys, key.2 ≤ h →
    ∀ row ∈ w.db.gatewayBalancesByBlock.lookup key, SnapshotRight broker w key.1 key.2 row

instance (broker : BlockHash → (call : BrokerCall) → call.Answer) (w : World) (h : ℕ) :
    Decidable (SnapshotsCanonical broker w h) :=
  inferInstanceAs (Decidable (_ → _ → ∀ key ∈ w.db.gatewayBalancesByBlock.keys, key.2 ≤ h →
    ∀ row ∈ w.db.gatewayBalancesByBlock.lookup key, SnapshotRight broker w key.1 key.2 row))

/-- The two reads that a snapshot is made of. -/
def readsSender : BrokerCall → Bool
  | .getSenderInfo _ => true
  | .isUnlockInProgress _ => true
  | .claimableReserve .. => false
  | .claimedReserve .. => false

/-- No block is replaced at which a sender has been read. -/
def replacesNoRead (w : World) (e : World.Event) : Prop :=
  ∀ w' ∈ w.occur e, ∀ question ∈ w.calls.keys, readsSender question.1 = true →
    w'.blockAt question.2 = w.blockAt question.2

instance (w : World) (e : World.Event) : Decidable (replacesNoRead w e) :=
  inferInstanceAs (Decidable (∀ w' ∈ w.occur e, ∀ question ∈ w.calls.keys,
    readsSender question.1 = true → w'.blockAt question.2 = w.blockAt question.2))

/-- The snapshot of a touch is stored while the block of the touch is on the chain. -/
def storesOnChain (w : World) : GatewayOp → Prop
  | .upsertGatewayBalance _ block row =>
      row.triggeringEventId.isSome = true → w.blockAt block = some row.blockHash
  | _ => True

instance (w : World) : ∀ op, Decidable (storesOnChain w op)
  | .upsertGatewayBalance _ block row => inferInstanceAs (Decidable
      (row.triggeringEventId.isSome = true → w.blockAt block = some row.blockHash))
  | .loadGatewayCheckpoint _ => inferInstanceAs (Decidable True)
  | .advanceGatewayCheckpoint .. => inferInstanceAs (Decidable True)
  | .fetchFlowCandidatesAfter .. => inferInstanceAs (Decidable True)
  | .fetchClaimantCandidatesAfter .. => inferInstanceAs (Decidable True)
  | .fetchBalanceCandidatesAfter .. => inferInstanceAs (Decidable True)
  | .upsertGatewayFlow _ => inferInstanceAs (Decidable True)
  | .upsertGatewayClaimant .. => inferInstanceAs (Decidable True)
  | .loadGatewayBalanceMaterialized .. => inferInstanceAs (Decidable True)
  | .loadGatewayLatestTouch .. => inferInstanceAs (Decidable True)
  | .brokerCall .. => inferInstanceAs (Decidable True)
  | .ethBlockNumber => inferInstanceAs (Decidable True)
  | .ethGetBlockHeader _ => inferInstanceAs (Decidable True)

/-- The condition of the law. -/
abbrev readOnce : Discipline World World.Event Task GatewayOp :=
  ⟨replacesNoRead, fun _ _ => True, storesOnChain⟩

/-- Every withdraw round is an `i64`: the contract sets it a few rounds ahead. -/
def RoundsFit (broker : BlockHash → (call : BrokerCall) → call.Answer) : Prop :=
  ∀ hash gateway, ((broker hash (.getSenderInfo gateway) : SenderInfo).withdrawRound : ℤ) ≤ i64Max

/-! ## The protocol -/

variable {blocks : BlockHash → Block} {broker : BlockHash → (call : BrokerCall) → call.Answer}
  {w w' : World}

/-- What has been read of senders is what the present chain says, and so is what is stored. -/
structure ReadsRight (broker : BlockHash → (call : BrokerCall) → call.Answer) (w : World) :
    Prop where
  calls : ∀ call block answer, readsSender call = true →
    w.calls.lookup (call, block) = some answer →
      ∃ hash, w.blockAt block = some hash ∧ answer = broker hash call
  rows : ∀ gateway block row, w.db.gatewayBalancesByBlock.lookup (gateway, block) = some row →
    (.getSenderInfo gateway, block) ∈ w.calls ∧ SnapshotRight broker w gateway block row

/-- Answers stay, and so do the blocks of the reads. -/
structure KeepsReads (w w' : World) : Prop where
  calls : ∀ question answer, w.calls.lookup question = some answer →
    w'.calls.lookup question = some answer
  blocks : ∀ call block, readsSender call = true → (call, block) ∈ w.calls →
    w'.blockAt block = w.blockAt block

theorem KeepsReads.mem (kept : KeepsReads w w') {question : BrokerCall × ℤ}
    (asked : question ∈ w.calls) : question ∈ w'.calls := by
  obtain ⟨answer, found⟩ := Finmap.mem_iff.mp asked
  exact Finmap.mem_iff.mpr ⟨answer, kept.calls question answer found⟩

def canonical (broker : BlockHash → (call : BrokerCall) → call.Answer) : Protocol World where
  inv := ReadsRight broker
  evolves := KeepsReads
  refl _ := ⟨fun _ _ found => found, fun _ _ _ _ => rfl⟩
  trans first second := {
    calls := fun question answer found => second.calls _ _ (first.calls question answer found)
    blocks := fun call block reads asked =>
      (second.blocks call block reads (first.mem asked)).trans (first.blocks call block reads asked) }

theorem SnapshotRight.later {gateway : Address} {block : ℤ} {row : GatewayBalance}
    (right : SnapshotRight broker w gateway block row) (asked : (.getSenderInfo gateway, block) ∈ w.calls)
    (kept : KeepsReads w w') : SnapshotRight broker w' gateway block row :=
  ⟨(kept.blocks _ block rfl asked).trans right.1, right.2⟩

/-- Of a state with the same answers and the same snapshots. -/
theorem readsRight_of_eq (sound : ReadsRight broker w) (calls : w'.calls = w.calls)
    (rows : w'.db.gatewayBalancesByBlock = w.db.gatewayBalancesByBlock)
    (onChain : ∀ question ∈ w.calls.keys, readsSender question.1 = true →
      w'.blockAt question.2 = w.blockAt question.2) :
    ReadsRight broker w' ∧ KeepsReads w w' := by
  have kept : KeepsReads w w' := by
    refine ⟨fun question answer found => by rwa [calls], fun call block reads asked => ?_⟩
    exact onChain (call, block) (Finmap.mem_keys.mpr asked) reads
  refine ⟨⟨fun call block answer reads found => ?_, fun gateway block row found => ?_⟩, kept⟩
  · rw [calls] at found
    obtain ⟨hash, placed, same⟩ := sound.calls call block answer reads found
    have asked : (call, block) ∈ w.calls := Finmap.mem_of_lookup_eq_some found
    exact ⟨hash, (kept.blocks call block reads asked).trans placed, same⟩
  · rw [rows] at found
    obtain ⟨asked, right⟩ := sound.rows gateway block row found
    exact ⟨kept.mem asked, right.later asked kept⟩

theorem occur_calls {e : World.Event} (occurred : w.occur e = some w') : w'.calls = w.calls := by
  cases e with
  | rows a =>
      obtain ⟨events, _, rfl⟩ := Option.map_eq_some_iff.mp occurred
      rfl
  | value row =>
      cases occurred
      rfl
  | _ =>
      simp only [World.occur, Option.ite_none_right_eq_some, Option.some.injEq] at occurred
      obtain ⟨_, rfl⟩ := occurred
      rfl

theorem canonical_occur {e : World.Event} (sound : ReadsRight broker w)
    (allowed : replacesNoRead w e) (occurred : w.occur e = some w') :
    ReadsRight broker w' ∧ KeepsReads w w' :=
  readsRight_of_eq sound (occur_calls occurred) (occur_gatewayBalancesByBlock occurred)
    (allowed w' occurred)

/-! ## Statements -/

/-- A call is answered by the present chain, or as before. -/
theorem readsRight_brokerCall {call : BrokerCall} {block : ℤ} {answer : call.Answer}
    (sound : ReadsRight broker w)
    (acted : w.act blocks broker (.brokerCall call block) = some (w', answer)) :
    ReadsRight broker w' ∧ KeepsReads w w' ∧ w'.calls.lookup (call, block) = some answer := by
  simp only [World.act] at acted
  split at acted
  · next known =>
      cases acted
      exact ⟨sound, (canonical broker).refl _, known⟩
  · next unknown =>
      obtain ⟨hash, placed, same⟩ := Option.map_eq_some_iff.mp acted
      cases same
      have others : ∀ question : BrokerCall × ℤ, question ≠ (call, block) →
          (w.calls.insert (call, block) (broker hash call)).lookup question =
            w.calls.lookup question :=
        fun question other => Finmap.lookup_insert_of_ne _ other
      have kept : KeepsReads w
          { w with calls := w.calls.insert (call, block) (broker hash call) } := by
        refine ⟨fun question answer found => ?_, fun _ _ _ _ => rfl⟩
        by_cases same : question = (call, block)
        · subst same
          rw [unknown] at found
          cases found
        · exact (others question same).trans found
      refine ⟨⟨fun call' block' answer reads found => ?_, fun gateway block' row found => ?_⟩, kept,
        Finmap.lookup_insert _⟩
      · by_cases same : (call', block') = (call, block)
        · cases same
          refine ⟨hash, placed, ?_⟩
          exact Option.some.inj (found.symm.trans (Finmap.lookup_insert _))
        · exact sound.calls call' block' answer reads ((others _ same).symm.trans found)
      · obtain ⟨asked, right⟩ := sound.rows gateway block' row found
        exact ⟨kept.mem asked, right⟩

/-- A statement keeps what is read and stored right if it stores right snapshots only. -/
theorem canonical_act {op : GatewayOp} {answer : op.Answer} (sound : ReadsRight broker w)
    (acted : w.act blocks broker op = some (w', answer))
    (writes : ∀ gateway block row, op = .upsertGatewayBalance gateway block row →
      (.getSenderInfo gateway, block) ∈ w.calls ∧ SnapshotRight broker w gateway block row) :
    ReadsRight broker w' ∧ KeepsReads w w' := by
  obtain ⟨chain, _, same⟩ := World.act_frame acted
  have onChain : ∀ question ∈ w.calls.keys, readsSender question.1 = true →
      w'.blockAt question.2 = w.blockAt question.2 := by
    intro question _ _
    rw [World.blockAt, World.blockAt, chain]
  cases op with
  | brokerCall call block =>
      obtain ⟨kept, moved, _⟩ := readsRight_brokerCall sound acted
      exact ⟨kept, moved⟩
  | upsertGatewayBalance gateway block row =>
      obtain ⟨asked, right⟩ := writes gateway block row rfl
      cases acted
      refine ⟨⟨sound.calls, fun gateway' block' row' found => ?_⟩, fun _ _ found => found,
        fun _ _ _ _ => rfl⟩
      have written : (Table.upsert w.db.gatewayBalancesByBlock (gateway, block) fun _ => row).lookup
          (gateway', block') = some row' := found
      rw [Table.lookup_upsert] at written
      split at written
      · next here =>
          cases here
          cases written
          exact ⟨asked, right⟩
      · exact sound.rows gateway' block' row' written
  | ethBlockNumber =>
      simp only [World.act] at acted
      split at acted
      · cases acted
      · cases acted
        exact ⟨sound, (canonical broker).refl _⟩
  | ethGetBlockHeader block =>
      obtain ⟨hash, _, unchanged⟩ := Option.map_eq_some_iff.mp acted
      cases unchanged
      exact ⟨sound, (canonical broker).refl _⟩
  | _ =>
      cases acted
      exact readsRight_of_eq sound rfl rfl onChain

theorem canonical_keeps (s : World) (op : GatewayOp) (s' : World) (answer : op.Answer)
    (sound : ReadsRight broker s) (_ : readOnce.op s op) (permitted : silent op)
    (acted : (workload blocks broker).act s op = some (s', answer)) :
    ReadsRight broker s' ∧ KeepsReads s s' := by
  refine canonical_act sound acted fun gateway block row same => ?_
  subst same
  exact absurd permitted id

/-- A program that stores no balance. -/
theorem canonical_silent {α : Type} {p : Program α} {fact : World → Prop}
    (lasting : ∀ s s', KeepsReads s s' → fact s → fact s') (uses : p.Uses silent)
    (known : fact w) :
    Ensures (workload blocks broker) readOnce (canonical broker) (fun _ => fact) p w :=
  ensures_of_uses lasting (fun s op s' answer sound _ => canonical_keeps s op s' answer sound) uses
    known

/-! ## Programs -/

/-- Both answers about a sender at a block are known. -/
structure Known (gateway : Address) (block : ℤ) (sender : SenderInfo) (unlock : Bool) (w : World) :
    Prop where
  sender : w.calls.lookup (.getSenderInfo gateway, block) = some sender
  unlock : w.calls.lookup (.isUnlockInProgress gateway, block) = some unlock

section Known

variable {gateway : Address} {block : ℤ} {sender : SenderInfo} {unlock : Bool}

theorem Known.later (known : Known gateway block sender unlock w) (kept : KeepsReads w w') :
    Known gateway block sender unlock w' :=
  ⟨kept.calls _ _ known.sender, kept.calls _ _ known.unlock⟩

/-- What is known is what the contract says in the block that is there now. -/
theorem Known.stateOf_eq (known : Known gateway block sender unlock w) (sound : ReadsRight broker w)
    {hash : BlockHash} (placed : w.blockAt block = some hash) :
    stateOf sender unlock = contractState broker hash gateway := by
  obtain ⟨hash₁, placed₁, sameSender⟩ := sound.calls _ block _ rfl known.sender
  obtain ⟨hash₂, placed₂, sameUnlock⟩ := sound.calls _ block _ rfl known.unlock
  cases placed.symm.trans placed₁
  cases placed.symm.trans placed₂
  rw [sameSender, sameUnlock]
  rfl

/-- A snapshot of what is known, with the hash of the block that is there now. -/
theorem Known.right (known : Known gateway block sender unlock w) (sound : ReadsRight broker w)
    {row : GatewayBalance} (tells : snapshotState row = stateOf sender unlock)
    (placed : w.blockAt block = some row.blockHash) :
    (.getSenderInfo gateway, block) ∈ w.calls ∧ SnapshotRight broker w gateway block row :=
  ⟨Finmap.mem_of_lookup_eq_some known.sender, placed, tells.trans (known.stateOf_eq sound placed)⟩

end Known

/-- A read leaves its answer in the cache. -/
theorem canonical_read {fact : World → Prop} (lasting : ∀ s s', KeepsReads s s' → fact s → fact s')
    (call : BrokerCall) (block : ℤ) (known : fact w) :
    Ensures (workload blocks broker) readOnce (canonical broker)
      (fun answer s => fact s ∧ s.calls.lookup (call, block) = some answer)
      (ask (.brokerCall call block)) w := by
  refine ensures_statement fun s moved sound _ s' answer acted => ?_
  have stepped : s.act blocks broker (.brokerCall call block) = some (s', answer) := acted
  obtain ⟨kept, moved', found⟩ := readsRight_brokerCall sound stepped
  exact ⟨kept, moved', lasting s s' moved' (lasting w s moved known), found⟩

/-- The two reads of a snapshot, in front of its insert. -/
theorem canonical_reads {α : Type} {gateway : Address} {block : ℤ}
    {rest : SenderInfo → Bool → Program α} {post : α → World → Prop}
    (ensures : ∀ sender unlock s, ReadsRight broker s → Known gateway block sender unlock s →
      Ensures (workload blocks broker) readOnce (canonical broker) post (rest sender unlock) s)
    (sound : ReadsRight broker w) :
    Ensures (workload blocks broker) readOnce (canonical broker) post
      (do
        let sender ← getSenderInfo gateway block
        let unlock ← isUnlockInProgress gateway block
        rest sender unlock) w := by
  refine ensures_bind ((canonical_read (fun _ _ _ (known : True) => known) (.getSenderInfo gateway)
    block trivial).mono sound fun sender s sound _ found => ?_)
  have kept : ∀ s s', KeepsReads s s' →
      s.calls.lookup (.getSenderInfo gateway, block) = some sender →
      s'.calls.lookup (.getSenderInfo gateway, block) = some sender :=
    fun _ _ moved => moved.calls _ sender
  refine ensures_bind ((canonical_read kept (.isUnlockInProgress gateway) block found.2).mono sound
    fun unlock s' sound' _ both => ?_)
  exact ensures sender unlock s' sound' ⟨both.1, both.2⟩

/-- The insert of a snapshot. -/
theorem canonical_store {gateway : Address} {block : ℤ} {sender : SenderInfo} {unlock : Bool}
    (known : Known gateway block sender unlock w) {row : GatewayBalance}
    (tells : snapshotState row = stateOf sender unlock)
    (placed : row.triggeringEventId = none → w.blockAt block = some row.blockHash) :
    Ensures (workload blocks broker) readOnce (canonical broker) (fun _ _ => True)
      (ask (.upsertGatewayBalance gateway block row)) w := by
  refine ensures_statement fun s moved sound allowed s' answer acted => ?_
  have stepped : s.act blocks broker (.upsertGatewayBalance gateway block row) =
    some (s', answer) := acted
  obtain ⟨kept, moved'⟩ := canonical_act sound stepped fun gateway' block' row' same => by
    cases same
    refine (known.later moved).right sound tells ?_
    cases trigger : row.triggeringEventId with
    | none =>
        have asked : (.getSenderInfo gateway, block) ∈ w.calls :=
          Finmap.mem_of_lookup_eq_some known.sender
        exact (moved.blocks _ block rfl asked).trans (placed trigger)
    | some eventId => exact allowed (by rw [trigger]; rfl)
  exact ⟨kept, moved', trivial⟩

/-- **An iteration of the gateway pass stores a right snapshot.** -/
theorem canonical_snapshotBalance (fits : RoundsFit broker) (c : GatewayCandidate)
    (sound : ReadsRight broker w) :
    Ensures (workload blocks broker) readOnce (canonical broker) (fun _ _ => True)
      (snapshotBalance c) w := by
  have step : ∀ sender unlock s, ReadsRight broker s →
      Known c.gatewayAddress c.blockNumber sender unlock s →
      Ensures (workload blocks broker) readOnce (canonical broker) (fun _ _ => True)
        (ask (.upsertGatewayBalance c.gatewayAddress c.blockNumber
          ((snapshotOf sender unlock).row c.blockTimestamp c.blockHash (some c.eventId)))) s := by
    intro sender unlock s sound known
    refine canonical_store known ?_ fun none_ => nomatch none_
    obtain ⟨hash, _, same⟩ := sound.calls _ _ _ rfl known.sender
    have fit : (sender.withdrawRound : ℤ) ≤ i64Max := by
      rw [same]
      exact fits hash c.gatewayAddress
    show ContractState.mk _ _ (min (sender.withdrawRound : ℤ) i64Max) _ = _
    rw [min_eq_left fit]
    rfl
  exact canonical_reads step sound

/-- **A request stores a right snapshot.** -/
theorem canonical_storeSnapshot {gateway : Address} {block : ℤ} {sender : SenderInfo}
    {unlock : Bool} (known : Known gateway block sender unlock w) {row : GatewayBalanceRow}
    (own : row.gatewayAddress = gateway) (at_ : row.blockNumber = block)
    (tells : ContractState.mk row.deposit row.reserveFundsRemaining row.withdrawRound
      row.unlockInProgress = stateOf sender unlock)
    (triggeringEventId : Option ℤ) (header : Timestamp × BlockHash)
    (placed : triggeringEventId = none → w.blockAt block = some header.2) :
    Ensures (workload blocks broker) readOnce (canonical broker) (fun _ _ => True)
      (storeSnapshot row triggeringEventId header) w := by
  subst own at_
  unfold storeSnapshot
  split
  · trivial
  · exact ensures_bind (Ensures.imp (canonical_store known tells placed) fun _ _ _ => trivial)

/-- The hash of a header is that of a block that has been read. -/
theorem canonical_readHeader {gateway : Address} {block : ℤ} {sender : SenderInfo} {unlock : Bool}
    (known : Known gateway block sender unlock w) :
    Ensures (workload blocks broker) readOnce (canonical broker)
      (fun header s => Known gateway block sender unlock s ∧ s.blockAt block = some header.2)
      (readHeader block) w := by
  refine ensures_bind (ensures_query canonical_keeps trivial fun _ _ first moved _ _ _ =>
    ensures_bind (ensures_query canonical_keeps trivial
      fun s s' (second : Timestamp × BlockHash) moved' _ _ acted => ?_))
  obtain ⟨hash, placed, same⟩ := Option.map_eq_some_iff.mp acted
  cases same
  exact ⟨(known.later moved).later moved', placed⟩

theorem canonical_readAndPersist (gateway : Address) (block : ℤ) (touch : Option RawEvent)
    (sound : ReadsRight broker w) :
    Ensures (workload blocks broker) readOnce (canonical broker) (fun _ _ => True)
      (readAndPersist gateway block touch) w := by
  refine ensures_bind (canonical_reads (fun sender unlock s sound known => ?_) sound)
  cases touch with
  | some touch =>
      exact canonical_storeSnapshot known rfl rfl rfl (some touch.id) _ fun none_ => nomatch none_
  | none =>
      refine ensures_bind (Ensures.imp (canonical_readHeader known) fun header s' both => ?_)
      exact canonical_storeSnapshot both.1 rfl rfl rfl none header fun _ => both.2

theorem canonical_hydrate (gateway : Address) (bound : Option ℤ) :
    Ensures (workload blocks broker) readOnce (canonical broker) (fun _ _ => True)
      (hydrateGatewayBalanceAtLatestTouch gateway bound) w := by
  refine ensures_bind (ensures_query canonical_keeps trivial
    fun _ _ (touch : Option RawEvent) _ _ _ _ => ?_)
  cases touch with
  | none => trivial
  | some touch =>
      refine ensures_bind (ensures_query canonical_keeps trivial
        fun _ s (stored : Option GatewayBalanceRow) _ sound _ _ => ?_)
      cases stored with
      | some row => trivial
      | none =>
          exact ensures_bind (Ensures.imp (canonical_readAndPersist gateway touch.blockNumber
            (some touch) sound) fun _ _ _ => trivial)

theorem canonical_balanceLatest (gateway : Address) :
    Ensures (workload blocks broker) readOnce (canonical broker) (fun _ _ => True)
      (balanceLatest gateway) w := by
  refine ensures_bind (ensures_query canonical_keeps trivial
    fun _ s (stored : Option GatewayBalanceRow) _ sound _ _ => ?_)
  cases stored with
  | some row => trivial
  | none =>
      refine ensures_bind ((canonical_hydrate gateway none).mono sound fun hydrated _ _ _ _ => ?_)
      cases hydrated with
      | some answer => trivial
      | none =>
          exact ensures_bind (ensures_query canonical_keeps trivial
            fun _ _ head _ sound _ _ => canonical_readAndPersist gateway head none sound)

theorem canonical_balanceAtBlock (gateway : Address) (block : ℤ) :
    Ensures (workload blocks broker) readOnce (canonical broker) (fun _ _ => True)
      (balanceAtBlock gateway block) w := by
  unfold balanceAtBlock
  split
  · trivial
  refine ensures_bind (ensures_query canonical_keeps trivial
    fun _ s (stored : Option GatewayBalanceRow) _ sound _ _ => ?_)
  cases stored with
  | some row => trivial
  | none =>
      refine ensures_bind ((canonical_hydrate gateway (some block)).mono sound
        fun hydrated _ sound _ _ => ?_)
      cases hydrated with
      | some answer => trivial
      | none => exact canonical_readAndPersist gateway block none sound

theorem canonical_runGatewayBackfill (fits : RoundsFit broker) (limits : BatchLimits)
    (includeTentative : Bool) :
    Ensures (workload blocks broker) readOnce (canonical broker) (fun _ _ => True)
      (runGatewayBackfill limits includeTentative) w := by
  refine ensures_bind (ensures_query canonical_keeps trivial fun _ _ flow _ _ _ _ => ?_)
  refine ensures_bind (ensures_query canonical_keeps trivial fun _ _ claimant _ _ _ _ => ?_)
  refine ensures_bind (ensures_query canonical_keeps trivial fun _ _ balance _ _ _ _ => ?_)
  refine ensures_bind (ensures_query canonical_keeps trivial fun _ _ flows _ _ _ _ => ?_)
  refine ensures_bind (ensures_query canonical_keeps trivial fun _ _ claimants _ _ _ _ => ?_)
  refine ensures_bind (ensures_query canonical_keeps trivial
    fun _ s (balances : List GatewayCandidate) _ sound _ _ => ?_)
  refine ensures_bind ((canonical_silent (fun _ _ _ (known : True) => known) ((uses_walkFlows flows).mono
    (silent_of_walkOp (by decide))) trivial).mono sound fun _ _ sound _ _ => ?_)
  refine ensures_bind ((canonical_silent (fun _ _ _ (known : True) => known)
    ((uses_walkClaimants claimants).mono (silent_of_walkOp (by decide))) trivial).mono sound
      fun _ _ sound _ _ => ?_)
  refine ensures_bind (Ensures.imp (ensures_forM snapshotBalance (fun _ _ => True) ?_ sound trivial)
    fun _ _ _ => ?_)
  · exact fun c _ _ sound _ => canonical_snapshotBalance fits c sound
  · refine canonical_silent (fun _ _ _ known => known) ?_ trivial
    cases (balances.getLast?.map (·.blockNumber)).or balance with
    | none => trivial
    | some block => exact Process.uses_statement trivial

theorem canonical_respected (fits : RoundsFit broker) :
    Respects (workload blocks broker) readOnce (canonical broker) where
  event s e s' sound allowed occurred := canonical_occur sound allowed occurred
  program s task _ _ := by
    cases task with
    | gatewayBackfill limits includeTentative =>
        exact canonical_runGatewayBackfill fits limits includeTentative
    | balanceLatest gateway =>
        exact ensures_bind (Ensures.imp (canonical_balanceLatest gateway) fun _ _ _ => trivial)
    | balanceAtBlock gateway block =>
        exact ensures_bind (Ensures.imp (canonical_balanceAtBlock gateway block)
          fun _ _ _ => trivial)

/-- In a run that keeps the condition, all reads and snapshots are right. -/
theorem readsRight_run (fits : RoundsFit broker) {pool : GatewayPool}
    (ran : GuardedRun (workload blocks broker).step readOnce.allows GatewayPool.start pool) :
    ReadsRight broker pool.shared := by
  have start : Pool.Sound (workload blocks broker) readOnce (canonical broker) GatewayPool.start := by
    refine ⟨⟨fun call block answer _ found => ?_, fun gateway block row found => ?_⟩, fun _ member =>
      absurd member List.not_mem_nil⟩
    · simp [GatewayPool.start, World.start] at found
    · simp [GatewayPool.start, World.start, Db.empty] at found
  exact ((canonical_respected fits).run start ran).1.inv

/-- **The snapshots are what the contract returns on the final chain**, in every state of every
run that keeps the condition. -/
theorem snapshots_canonical (blocks : BlockHash → Block)
    (broker : BlockHash → (call : BrokerCall) → call.Answer) (fits : RoundsFit broker)
    (pool : GatewayPool)
    (ran : GuardedRun (workload blocks broker).step readOnce.allows GatewayPool.start pool)
    (h : ℕ) : SnapshotsCanonical broker pool.shared h := by
  intro _ _ key _ _ row found
  exact ((readsRight_run fits ran).rows key.1 key.2 row found).2

/-! ## Two deposits and a deposit that is taken back -/

/-- The log of a deposit of the gateway. -/
def depositLog (txHash : TxHash) : ChainLog where
  contractName := .TicketBroker
  txHash := txHash
  logIndex := 0
  isStrict := true
  fields := some
    { eventName := .DepositFunded
      asset := some .ETH
      amountNormalized := some ⟨5⟩
      isValuable := true
      fromAddress := some "0xg"
      toAddress := none
      decoded := .none
      amount_of_asset := amount_given }

/-- Two blocks hold a deposit each, all others are empty. -/
def fundedBlocks (hash : BlockHash) : Block :=
  ⟨0, if hash = "0xa" then [depositLog "0xt"] else if hash = "0xb" then [depositLog "0xu"] else []⟩

/-- The contract after the first deposit and after both. -/
def fundedBroker (hash : BlockHash) : (call : BrokerCall) → call.Answer
  | .getSenderInfo gateway => SenderInfo.mk
      (if gateway = "0xg" then if hash = "0xa" then 5 else if hash = "0xb" then 10 else 0 else 0)
      0 0 0
  | .isUnlockInProgress _ => false
  | .claimableReserve .. => (0 : ℕ)
  | .claimedReserve .. => (0 : ℕ)

theorem fundedBroker_fits : RoundsFit fundedBroker := fun _ _ => (by decide : (0 : ℤ) ≤ i64Max)

/-- Both deposits are indexed and finalized, and a pass runs. -/
def fundedSchedule : List (PoolAction World.Event Task) :=
  [.event (.reorg 0 ["0xa", "0xb"]), .event (.rows (.insert [(1, depositRow "0xt" 0 "0xa"),
    (2, depositRow "0xu" 1 "0xb")])), .event (.rows (.finalize 0 1000)), .event (.becomeFinal 2),
    .spawn (.gatewayBackfill batchLimits false)] ++ steps 16

def fundedPool : GatewayPool :=
  (execute (workload fundedBlocks fundedBroker).step GatewayPool.start fundedSchedule).get
    (by decide +kernel)

/-- Both snapshots are right. -/
theorem fundedSchedule_canonical :
    1 < fundedPool.shared.finalBlocks ∧ CaughtUp fundedPool.shared ∧
      fundedPool.shared.db.gatewayBalancesByBlock.keys = {("0xg", 0), ("0xg", 1)} ∧
      SnapshotsCanonical fundedBroker fundedPool.shared 1 := by
  have executed : execute (workload fundedBlocks fundedBroker).step GatewayPool.start
      fundedSchedule = some fundedPool := (Option.some_get _).symm
  refine ⟨by decide +kernel, by decide +kernel, by decide +kernel, ?_⟩
  exact snapshots_canonical fundedBlocks fundedBroker fundedBroker_fits fundedPool
    (execute_guardedRun executed (by decide +kernel)) 1

/-- A deposit is indexed, a request hydrates a snapshot of it, then its block is replaced and the
watcher takes the deposit back; the new block becomes final and a pass runs. -/
def orphanedSchedule : List (PoolAction World.Event Task) :=
  [.event (.reorg 0 ["0xa"]), .event (.rows (.insert [(1, depositRow "0xt" 0 "0xa")])),
    .spawn (.balanceLatest "0xg")] ++ steps 6 ++
    [.stop 0, .event (.reorg 0 ["0xc"]), .event (.rows (.diverge 0)), .event (.becomeFinal 1),
      .spawn (.gatewayBackfill batchLimits false)] ++ steps 6

def orphanedPool : GatewayPool :=
  (execute (workload fundedBlocks fundedBroker).step GatewayPool.start orphanedSchedule).get
    (by decide +kernel)

/-- **A snapshot of a replaced block stays**, with the deposit that was taken back. -/
theorem orphanedSnapshot_stays :
    ¬ ∀ pool, Run (workload fundedBlocks fundedBroker).step GatewayPool.start pool →
      ∀ h, SnapshotsCanonical fundedBroker pool.shared h := by
  intro law
  have executed : execute (workload fundedBlocks fundedBroker).step GatewayPool.start
      orphanedSchedule = some orphanedPool := (Option.some_get _).symm
  have wrong : ¬ SnapshotsCanonical fundedBroker orphanedPool.shared 0 := by decide +kernel
  exact wrong (law orphanedPool (execute_run executed) 0)

end ProtocolExplorer.Gateway
