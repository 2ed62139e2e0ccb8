import ProtocolExplorer.Gateway.Programs

/-!
# The gateway directory

`broadcaster_profile` lists whoever has a row in `gateway_balances_by_block`.  The gateway pass
stores rows for the senders of canonical TicketBroker events only.  The balance endpoints store
what they read for any address they are asked about, and the reorg watcher may take the last
event of an address that is listed.

* `directory_respected` — every program keeps the directory sound, statement by statement;
* `directory_sound` — **in every run whose requests are about gateways with a canonical touch,
  and in which no gateway loses its last one, every listed address has one**;
* `request_lists_stranger` — one request for an address nobody has seen.
-/

set_option autoImplicit false

namespace ProtocolExplorer.Gateway

open ProtocolExplorer.Lib
open ProtocolExplorer.Store
open ProtocolExplorer.Indexer

/-! ## The law and its condition -/

/-- The addresses of `broadcaster_profile`, and so of `/gateways`. -/
def broadcasterProfile (db : Db) : Finset Address := db.gatewayBalancesByBlock.keys.image Prod.fst

/-- The gateway is the sender of a canonical TicketBroker event. -/
def HasTouch (w : World) (gateway : Address) : Prop :=
  ∃ e ∈ w.db.rawProtocolEvents, touches gateway e = true

instance (w : World) (gateway : Address) : Decidable (HasTouch w gateway) :=
  inferInstanceAs (Decidable (∃ e ∈ w.db.rawProtocolEvents, touches gateway e = true))

/-- Every listed address has a canonical touch event. -/
def DirectorySound (w : World) : Prop := ∀ gateway ∈ broadcasterProfile w.db, HasTouch w gateway

instance (w : World) : Decidable (DirectorySound w) :=
  inferInstanceAs (Decidable (∀ gateway ∈ broadcasterProfile w.db, HasTouch w gateway))

/-- The reorg watcher takes from no gateway its last canonical touch event. -/
def keepsTouches (w : World) : World.Event → Prop
  | .rows (.diverge blockNumber) =>
      ∀ e ∈ w.db.rawProtocolEvents, ∀ gateway ∈ e.fromAddress, touches gateway e = true →
        ∃ other ∈ w.db.rawProtocolEvents, touches gateway other = true ∧
          other.blockNumber ≠ blockNumber
  | _ => True

instance (w : World) : ∀ e, Decidable (keepsTouches w e)
  | .rows (.diverge blockNumber) => inferInstanceAs (Decidable
      (∀ e ∈ w.db.rawProtocolEvents, ∀ gateway ∈ e.fromAddress, touches gateway e = true →
        ∃ other ∈ w.db.rawProtocolEvents, touches gateway other = true ∧
          other.blockNumber ≠ blockNumber))
  | .rows (.insert _) => inferInstanceAs (Decidable True)
  | .rows (.postL1 _) => inferInstanceAs (Decidable True)
  | .rows (.finalize ..) => inferInstanceAs (Decidable True)
  | .reorg .. => inferInstanceAs (Decidable True)
  | .becomeFinal _ => inferInstanceAs (Decidable True)
  | .value _ => inferInstanceAs (Decidable True)

/-- A request is about a gateway that has a canonical touch event. -/
def asksAboutGateway (w : World) : Task → Prop
  | .gatewayBackfill .. => True
  | .balanceLatest gateway => HasTouch w gateway
  | .balanceAtBlock gateway _ => HasTouch w gateway

instance (w : World) : ∀ task, Decidable (asksAboutGateway w task)
  | .gatewayBackfill .. => inferInstanceAs (Decidable True)
  | .balanceLatest gateway => inferInstanceAs (Decidable (HasTouch w gateway))
  | .balanceAtBlock gateway _ => inferInstanceAs (Decidable (HasTouch w gateway))

/-- The condition of the law. -/
abbrev touchedOnly : Discipline World World.Event Task GatewayOp :=
  ⟨keepsTouches, asksAboutGateway, fun _ _ => True⟩

/-! ## The protocol -/

/-- The directory is sound, and a gateway that has a touch keeps having one. -/
def directory : Protocol World where
  inv := DirectorySound
  evolves w w' := ∀ gateway, HasTouch w gateway → HasTouch w' gateway
  refl _ _ touched := touched
  trans first second gateway touched := second gateway (first gateway touched)

variable {blocks : BlockHash → Block} {broker : BlockHash → (call : BrokerCall) → call.Answer}
  {w w' : World}

theorem hasTouch_of_map {update : RawEvent → RawEvent}
    (row : ∀ e, (update e).toPreparedRow = e.toPreparedRow)
    (canonical : ∀ e, (update e).isCanonical = e.isCanonical)
    (events : w'.db.rawProtocolEvents = w.db.rawProtocolEvents.map update) {gateway : Address}
    (touched : HasTouch w gateway) : HasTouch w' gateway := by
  obtain ⟨e, stored, touch⟩ := touched
  refine ⟨update e, events ▸ List.mem_map_of_mem stored, ?_⟩
  rw [touches_congr (row e) (canonical e)]
  exact touch

/-- No event takes the last touch of a gateway. -/
theorem hasTouch_occur {e : World.Event} (allowed : keepsTouches w e)
    (occurred : w.occur e = some w') {gateway : Address} (touched : HasTouch w gateway) :
    HasTouch w' gateway := by
  cases e with
  | reorg keep new =>
      simp only [World.occur, Option.ite_none_right_eq_some, Option.some.injEq] at occurred
      obtain ⟨_, rfl⟩ := occurred
      exact touched
  | becomeFinal finalBlocks =>
      simp only [World.occur, Option.ite_none_right_eq_some, Option.some.injEq] at occurred
      obtain ⟨_, rfl⟩ := occurred
      exact touched
  | value row =>
      cases occurred
      exact touched
  | rows a =>
      obtain ⟨events, stepped, rfl⟩ := Option.map_eq_some_iff.mp occurred
      cases a with
      | insert rows =>
          simp only [Finality.Lifecycle.step, Option.ite_none_right_eq_some,
            Option.some.injEq] at stepped
          obtain ⟨_, rfl⟩ := stepped
          obtain ⟨e, stored, touch⟩ := touched
          obtain ⟨new, appended, _⟩ := exists_insertEvents_eq_append rows w.db.rawProtocolEvents
          refine ⟨e, ?_, touch⟩
          show e ∈ insertEvents rows w.db.rawProtocolEvents
          rw [appended]
          exact List.mem_append_left new stored
      | postL1 latestTs =>
          cases stepped
          refine hasTouch_of_map (fun e => ?_) (fun e => ?_) rfl touched
          · unfold Finality.markL1Posted
            split <;> rfl
          · unfold Finality.markL1Posted
            split <;> rfl
      | finalize now finalizedTs =>
          cases stepped
          refine hasTouch_of_map (fun e => ?_) (fun e => ?_) rfl touched
          · unfold Finality.markFinalized
            split <;> rfl
          · unfold Finality.markFinalized
            split <;> rfl
      | diverge blockNumber =>
          cases stepped
          obtain ⟨e, stored, touch⟩ := touched
          obtain ⟨other, kept, touch', outside⟩ :=
            allowed e stored gateway (touches_iff.mp touch).2.2.2 touch
          refine ⟨Reorg.unmark blockNumber other, List.mem_map_of_mem kept, ?_⟩
          rw [Reorg.unmark, if_neg fun here => outside here.1]
          exact touch'

theorem occur_gatewayBalancesByBlock {e : World.Event} (occurred : w.occur e = some w') :
    w'.db.gatewayBalancesByBlock = w.db.gatewayBalancesByBlock := by
  cases e with
  | rows a =>
      obtain ⟨events, _, rfl⟩ := Option.map_eq_some_iff.mp occurred
      rfl
  | value row =>
      cases occurred
      rfl
  | _ =>
      simp only [World.occur, Option.ite_none_right_eq_some, Option.some.injEq] at occurred
      obtain ⟨_, rfl⟩ := occurred
      rfl

/-! ## Statements -/

/-- A statement keeps the directory sound if it stores balances of touched gateways only. -/
theorem directory_act {op : GatewayOp} {answer : op.Answer} (sound : DirectorySound w)
    (acted : w.act blocks broker op = some (w', answer))
    (writes : ∀ gateway block row, op = .upsertGatewayBalance gateway block row →
      HasTouch w gateway) :
    DirectorySound w' ∧ directory.evolves w w' := by
  obtain ⟨_, _, same⟩ := World.act_frame acted
  have keeps : ∀ gateway, HasTouch w gateway → HasTouch w' gateway := by
    intro gateway touched
    rw [HasTouch, same, World.written_rawProtocolEvents]
    exact touched
  refine ⟨fun gateway listed => ?_, keeps⟩
  obtain ⟨⟨_, block⟩, stored, rfl⟩ := Finset.mem_image.mp listed
  rw [Finmap.mem_keys, same] at stored
  cases op with
  | upsertGatewayBalance other number row =>
      rcases Table.mem_upsert.mp stored with here | old
      · cases here
        exact keeps _ (writes _ _ _ rfl)
      · exact keeps _ (sound _ (Finset.mem_image.mpr ⟨_, Finmap.mem_keys.mpr old, rfl⟩))
  | _ => exact keeps _ (sound _ (Finset.mem_image.mpr ⟨_, Finmap.mem_keys.mpr stored, rfl⟩))

/-- A program that stores balances of one touched gateway at most. -/
theorem directory_ensures {α : Type} {p : Program α} {gateway : Address}
    (uses : p.Uses (requestOp gateway)) (touched : HasTouch w gateway) :
    Ensures (workload blocks broker) touchedOnly directory (fun _ _ => True) p w := by
  refine Ensures.imp (ensures_of_uses (fun _ _ moved => moved gateway) ?_ uses touched)
    fun _ _ _ => trivial
  intro s op s' answer sound known _ permitted acted
  refine directory_act sound acted fun other block row same => ?_
  subst same
  exact (permitted : other = gateway) ▸ known

/-- A statement that stores no balance. -/
def silent : GatewayOp → Prop
  | .upsertGatewayBalance .. => False
  | _ => True

theorem directory_keeps (s : World) (op : GatewayOp) (s' : World) (answer : op.Answer)
    (sound : DirectorySound s) (_ : touchedOnly.op s op) (permitted : silent op)
    (acted : (workload blocks broker).act s op = some (s', answer)) :
    DirectorySound s' ∧ directory.evolves s s' := by
  refine directory_act sound acted fun gateway block row same => ?_
  subst same
  exact absurd permitted id

/-- A program that stores no balance, in front of one that needs a lasting fact. -/
theorem directory_silent {α : Type} {p : Program α} {fact : World → Prop}
    (lasting : ∀ s s', directory.evolves s s' → fact s → fact s') (uses : p.Uses silent)
    (known : fact w) :
    Ensures (workload blocks broker) touchedOnly directory (fun _ => fact) p w :=
  ensures_of_uses lasting (fun s op s' answer sound _ => directory_keeps s op s' answer sound)
    uses known

/-! ## Programs -/

theorem directory_snapshotBalance {c : GatewayCandidate} (touched : HasTouch w c.gatewayAddress) :
    Ensures (workload blocks broker) touchedOnly directory (fun _ _ => True) (snapshotBalance c)
      w :=
  directory_ensures ⟨trivial, fun _ => ⟨trivial, fun _ => ⟨rfl, fun _ => trivial⟩⟩⟩ touched

/-- Of the walks, only the balance walk stores balances. -/
theorem silent_of_walkOp {axis : GatewayAxis} (other : axis ≠ .balance) (op : GatewayOp)
    (permitted : walkOp axis op) : silent op := by
  cases op with
  | upsertGatewayBalance gateway block row =>
      cases axis with
      | balance => exact other rfl
      | _ => exact permitted
  | _ => trivial

/-- The gateways of some candidates have touches. -/
def AllTouched (candidates : List GatewayCandidate) (w : World) : Prop :=
  ∀ c ∈ candidates, HasTouch w c.gatewayAddress

theorem allTouched_lasting (candidates : List GatewayCandidate) (s s' : World)
    (moved : directory.evolves s s') (known : AllTouched candidates s) : AllTouched candidates s' :=
  fun c member => moved _ (known c member)

theorem directory_walkBalances (loaded : Option ℤ) {candidates : List GatewayCandidate}
    (sound : DirectorySound w) (touched : AllTouched candidates w) :
    Ensures (workload blocks broker) touchedOnly directory (fun _ _ => True)
      (walkBalances loaded candidates) w := by
  refine ensures_bind (Ensures.imp (ensures_forM snapshotBalance AllTouched ?_ sound touched) ?_)
  · intro c rest s sound known
    have here := known c (List.mem_cons_self ..)
    have later : AllTouched rest s := fun c' member => known c' (List.mem_cons_of_mem c member)
    refine (directory_snapshotBalance here).mono sound fun _ s' _ moved _ => ?_
    exact allTouched_lasting rest s s' moved later
  · intro _ s _
    refine directory_silent (fun _ _ _ known => known) ?_ trivial
    cases (candidates.getLast?.map (·.blockNumber)).or loaded with
    | none => trivial
    | some block => exact Process.uses_statement trivial

/-- **The gateway pass keeps the directory sound**: it snapshots the senders of touch events. -/
theorem directory_runGatewayBackfill (limits : BatchLimits) (includeTentative : Bool) :
    Ensures (workload blocks broker) touchedOnly directory (fun _ _ => True)
      (runGatewayBackfill limits includeTentative) w := by
  refine ensures_bind (ensures_query directory_keeps trivial fun _ _ flow _ _ _ _ => ?_)
  refine ensures_bind (ensures_query directory_keeps trivial fun _ _ claimant _ _ _ _ => ?_)
  refine ensures_bind (ensures_query directory_keeps trivial fun _ _ balance _ _ _ _ => ?_)
  refine ensures_bind (ensures_query directory_keeps trivial fun _ _ flows _ _ _ _ => ?_)
  refine ensures_bind (ensures_query directory_keeps trivial fun _ _ claimants _ _ _ _ => ?_)
  refine ensures_bind (ensures_query directory_keeps trivial fun s s' balances _ sound _ acted => ?_)
  have touched : AllTouched balances s' := by
    cases acted
    intro c fetched
    obtain ⟨e, stored, touch, sender, _⟩ := exists_touch_of_candidate fetched
    refine ⟨e, stored, touches_iff.mpr ?_⟩
    simp only [brokerEvent, RawEvent.eligible, Bool.and_eq_true, decide_eq_true_eq] at touch
    exact ⟨touch.1.1.1.1, touch.1.1.2, touch.1.2, sender⟩
  refine ensures_bind ((directory_silent (allTouched_lasting balances) ((uses_walkFlows flows).mono
    (silent_of_walkOp (by decide))) touched).mono sound fun _ _ sound _ touched => ?_)
  refine ensures_bind ((directory_silent (allTouched_lasting balances)
    ((uses_walkClaimants claimants).mono (silent_of_walkOp (by decide))) touched).mono sound
      fun _ _ sound _ touched => ?_)
  exact directory_walkBalances balance sound touched

theorem directory_respected : Respects (workload blocks broker) touchedOnly directory where
  event s e s' sound allowed occurred := by
    have keeps : ∀ gateway, HasTouch s gateway → HasTouch s' gateway :=
      fun gateway => hasTouch_occur allowed occurred
    refine ⟨fun gateway listed => keeps gateway (sound gateway ?_), keeps⟩
    rwa [broadcasterProfile, occur_gatewayBalancesByBlock occurred] at listed
  program s task _ allowed := by
    cases task with
    | gatewayBackfill limits includeTentative => exact directory_runGatewayBackfill limits includeTentative
    | balanceLatest gateway => exact directory_ensures (Process.uses_map uses_balanceLatest) allowed
    | balanceAtBlock gateway block =>
        exact directory_ensures (Process.uses_map (uses_balanceAtBlock block)) allowed

/-- **Every listed address has a canonical touch event**, in every state of every run that keeps
the condition. -/
theorem directory_sound (blocks : BlockHash → Block)
    (broker : BlockHash → (call : BrokerCall) → call.Answer) (pool : GatewayPool)
    (ran : GuardedRun (workload blocks broker).step touchedOnly.allows GatewayPool.start pool) :
    DirectorySound pool.shared := by
  have start : Pool.Sound (workload blocks broker) touchedOnly directory GatewayPool.start :=
    ⟨(by decide : DirectorySound World.start), fun _ member => absurd member List.not_mem_nil⟩
  exact (directory_respected.run start ran).1.inv

/-! ## A gateway and a stranger -/

/-- A chain of empty blocks. -/
def emptyBlocks (_ : BlockHash) : Block := ⟨0, []⟩

/-- A contract that knows nobody. -/
def unusedBroker (_ : BlockHash) : (call : BrokerCall) → call.Answer
  | .getSenderInfo _ => ⟨0, 0, 0, 0⟩
  | .isUnlockInProgress _ => false
  | .claimableReserve .. => (0 : ℕ)
  | .claimedReserve .. => (0 : ℕ)

/-- The next statements of the first process. -/
def steps (n : ℕ) : List (PoolAction World.Event Task) := List.replicate n (.proceed 0)

/-- The gateway funds its deposit with five wei. -/
def depositRow (txHash : TxHash) (blockNumber : ℤ) (blockHash : BlockHash) : PreparedRow where
  txHash := txHash
  logIndex := 0
  blockNumber := blockNumber
  blockHash := blockHash
  blockTimestamp := 0
  contractName := .TicketBroker
  eventName := .DepositFunded
  asset := some .ETH
  amountNormalized := some ⟨5⟩
  isValuable := true
  fromAddress := some "0xg"
  toAddress := none
  decoded := .none
  amount_of_asset := amount_given

/-- A deposit is indexed and finalized, a pass runs, then a request is answered. -/
def gatewaySchedule : List (PoolAction World.Event Task) :=
  [.event (.reorg 0 ["0xa", "0xb"]), .event (.rows (.insert [(1, depositRow "0xt" 0 "0xa")])),
    .event (.rows (.finalize 0 1000)), .spawn (.gatewayBackfill batchLimits false)] ++ steps 12 ++
    [.stop 0, .spawn (.balanceAtBlock "0xg" 1)] ++ steps 1

def gatewayPool : GatewayPool :=
  (execute (workload emptyBlocks unusedBroker).step GatewayPool.start gatewaySchedule).get
    (by decide +kernel)

/-- The gateway is listed. -/
theorem gatewaySchedule_directory_sound :
    broadcasterProfile gatewayPool.shared.db = {"0xg"} ∧ DirectorySound gatewayPool.shared := by
  have executed : execute (workload emptyBlocks unusedBroker).step GatewayPool.start
      gatewaySchedule = some gatewayPool := (Option.some_get _).symm
  refine ⟨by decide +kernel, directory_sound emptyBlocks unusedBroker gatewayPool ?_⟩
  exact execute_guardedRun executed (by decide +kernel)

/-- One request for the latest balance of an address without events. -/
def strangerSchedule : List (PoolAction World.Event Task) :=
  [.event (.reorg 0 ["0xa"]), .spawn (.balanceLatest "0xs")] ++ steps 8

def strangerPool : GatewayPool :=
  (execute (workload emptyBlocks unusedBroker).step GatewayPool.start strangerSchedule).get
    (by decide +kernel)

/-- **A request lists a stranger**: the zero balance that is read for it is stored. -/
theorem request_lists_stranger :
    ¬ ∀ pool, Run (workload emptyBlocks unusedBroker).step GatewayPool.start pool →
      DirectorySound pool.shared := by
  intro law
  have executed : execute (workload emptyBlocks unusedBroker).step GatewayPool.start
      strangerSchedule = some strangerPool := (Option.some_get _).symm
  have unsound : ¬ DirectorySound strangerPool.shared := by decide +kernel
  exact unsound (law strangerPool (execute_run executed))

end ProtocolExplorer.Gateway
