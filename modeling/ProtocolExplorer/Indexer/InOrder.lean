import ProtocolExplorer.Lib.Transition
import ProtocolExplorer.Finality.Watcher
import ProtocolExplorer.Indexer.Backfill
import ProtocolExplorer.Valuator.Bulk

/-!
# Indexing in block order

Without reorgs the event log grows towards the decoded logs of one chain.  Walkers store them
contract by contract, in chunks of blocks; the system interleaves these chunks with finality
iterations and valuations.

* `mem_new_insertEvents` — an insert appends rows whose keys were not stored;
* `inOrder_step` — a chunk that leaves no gap below itself keeps the log free of gaps;
* `storedKey_of_later` — **in a log without gaps, an event of a contract shows that all earlier ones
  of this contract are stored.**
-/

set_option autoImplicit false

namespace ProtocolExplorer.Indexer

open ProtocolExplorer.Lib
open ProtocolExplorer.Store
open ProtocolExplorer.Finality
open ProtocolExplorer.Valuator (insertValuations)

/-- The decoded logs of a chain. -/
structure ChainHistory where
  rows : List PreparedRow
  /-- Time does not run against the blocks. -/
  timely : ∀ a ∈ rows, ∀ b ∈ rows, a.blockTimestamp < b.blockTimestamp →
    a.blockNumber < b.blockNumber
  /-- Tickets and rewards come from their contracts. -/
  ofTicketBroker : ∀ row ∈ rows, row.eventName = .WinningTicketRedeemed →
    row.contractName = .TicketBroker
  ofBondingManager : ∀ row ∈ rows, row.eventName = .Reward → row.contractName = .BondingManager

inductive GrowthAction where
  | index (contract : ContractKind) (fromBlock toBlock firstId : ℤ)
  | finalize (now : Timestamp) (latestTs finalizedTs : ℤ)
  | value (rows : List ValuationRow)

/-- The key of a row is in the log. -/
def StoredKey (db : Db) (row : PreparedRow) : Prop :=
  ∃ e ∈ db.rawProtocolEvents, e.logKey = preparedKey row

instance (db : Db) (row : PreparedRow) : Decidable (StoredKey db row) :=
  inferInstanceAs (Decidable (∃ e ∈ db.rawProtocolEvents, e.logKey = preparedKey row))

namespace ChainHistory

variable (history : ChainHistory)

/-- The rows of a contract in a range of blocks. -/
def chunk (contract : ContractKind) (fromBlock toBlock : ℤ) : List PreparedRow :=
  history.rows.filter fun row => decide (row.contractName = contract) &&
    decide (fromBlock ≤ row.blockNumber) && decide (row.blockNumber ≤ toBlock)

def step (db : Db) : GrowthAction → Option Db
  | .index contract fromBlock toBlock firstId =>
      let rows := numbered firstId (history.chunk contract fromBlock toBlock)
      if freshIds rows db.rawProtocolEvents then
        some { db with rawProtocolEvents := insertEvents rows db.rawProtocolEvents }
      else none
  | .finalize now latestTs finalizedTs => some (runOnce now latestTs finalizedTs db)
  | .value rows => some (insertValuations rows db)

/-- A chunk leaves no gap below itself. -/
def leavesNoGap (db : Db) : GrowthAction → Prop
  | .index contract fromBlock _ _ => ∀ row ∈ history.rows, row.contractName = contract →
      row.blockNumber < fromBlock → StoredKey db row
  | .finalize .. => True
  | .value _ => True

instance decidableLeavesNoGap (db : Db) : ∀ a, Decidable (history.leavesNoGap db a)
  | .index contract fromBlock _ _ => inferInstanceAs (Decidable (∀ row ∈ history.rows,
      row.contractName = contract → row.blockNumber < fromBlock → StoredKey db row))
  | .finalize .. => inferInstanceAs (Decidable True)
  | .value _ => inferInstanceAs (Decidable True)

/-- The log holds rows of the history, and with each of them all earlier ones of its contract. -/
structure InOrder (db : Db) : Prop where
  fromHistory : ∀ e ∈ db.rawProtocolEvents, e.toPreparedRow ∈ history.rows
  noGap : ∀ e ∈ db.rawProtocolEvents, ∀ row ∈ history.rows, row.contractName = e.contractName →
    row.blockNumber < e.blockNumber → StoredKey db row

end ChainHistory

/-! ## Inserting -/

/-- The rows that an insert appends are offered, tentative, and under fresh keys. -/
theorem mem_new_insertEvents (rows : NumberedRows) (events : List RawEvent) :
    ∃ new, insertEvents rows events = events ++ new ∧
      ∀ e ∈ new, (∃ row ∈ rows, e = row.2.stored row.1) ∧ ∀ old ∈ events, old.logKey ≠ e.logKey := by
  induction rows generalizing events with
  | nil => exact ⟨[], (List.append_nil _).symm, fun _ member => absurd member List.not_mem_nil⟩
  | cons row rest inductionHypothesis =>
      obtain ⟨new, appended, described⟩ := inductionHypothesis (insertEvent events row)
      rcases insertEvent_cases events row with ⟨same, _⟩ | ⟨inserted, fresh⟩
      · rw [same] at appended described
        refine ⟨new, by rw [insertEvents, List.foldl_cons, same]; exact appended, fun e member => ?_⟩
        obtain ⟨⟨other, offered, rfl⟩, unused⟩ := described e member
        exact ⟨⟨other, List.mem_cons_of_mem _ offered, rfl⟩, unused⟩
      · rw [inserted] at appended described
        refine ⟨row.2.stored row.1 :: new, ?_, fun e member => ?_⟩
        · rw [insertEvents, List.foldl_cons, inserted]
          exact appended.trans (List.append_assoc ..)
        · rcases List.mem_cons.mp member with rfl | later
          · exact ⟨⟨row, List.mem_cons_self .., rfl⟩, fresh⟩
          · obtain ⟨⟨other, offered, rfl⟩, unused⟩ := described e later
            exact ⟨⟨other, List.mem_cons_of_mem _ offered, rfl⟩,
              fun old stored => unused old (List.mem_append_left _ stored)⟩

namespace ChainHistory

variable {history : ChainHistory} {db db' : Db}

theorem mem_chunk {contract : ContractKind} {fromBlock toBlock : ℤ} {row : PreparedRow} :
    row ∈ history.chunk contract fromBlock toBlock ↔ row ∈ history.rows ∧
      row.contractName = contract ∧ fromBlock ≤ row.blockNumber ∧ row.blockNumber ≤ toBlock := by
  simp [chunk, and_assoc]

theorem StoredKey.mono {row : PreparedRow} (stored : StoredKey db row)
    (kept : ∀ e ∈ db.rawProtocolEvents, ∃ e' ∈ db'.rawProtocolEvents, e'.logKey = e.logKey) :
    StoredKey db' row := by
  obtain ⟨e, member, same⟩ := stored
  obtain ⟨e', member', same'⟩ := kept e member
  exact ⟨e', member', same'.trans same⟩

/-- What any step does to the log: it updates finalities and appends fresh rows of the history. -/
theorem step_events {a : GrowthAction} (stepped : history.step db a = some db') :
    ∃ (update : RawEvent → RawEvent) (new : List RawEvent),
      db'.rawProtocolEvents = db.rawProtocolEvents.map update ++ new ∧
        (∀ e, (update e).toPreparedRow = e.toPreparedRow ∧ (update e).id = e.id ∧
          (update e).isCanonical = e.isCanonical ∧
            (e.finality = .finalized → update e = e)) ∧
          ∀ e ∈ new, e.toPreparedRow ∈ history.rows ∧ ¬ StoredKey db e.toPreparedRow := by
  cases a with
  | index contract fromBlock toBlock firstId =>
      simp only [step, Option.ite_none_right_eq_some, Option.some.injEq] at stepped
      obtain ⟨_, rfl⟩ := stepped
      obtain ⟨new, appended, described⟩ := mem_new_insertEvents
        (numbered firstId (history.chunk contract fromBlock toBlock)) db.rawProtocolEvents
      refine ⟨id, new, by rw [List.map_id]; exact appended, fun _ => ⟨rfl, rfl, rfl, fun _ => rfl⟩,
        fun e member => ?_⟩
      obtain ⟨⟨row, offered, rfl⟩, unused⟩ := described e member
      refine ⟨(mem_chunk.mp ((mem_numbered firstId).mp ⟨row.1, offered⟩)).1, ?_⟩
      rintro ⟨old, stored, same⟩
      exact unused old stored same
  | finalize now latestTs finalizedTs =>
      cases stepped
      refine ⟨markRow now latestTs finalizedTs, [], ?_, fun e => ⟨markRow_toPreparedRow, markRow_id,
        markRow_isCanonical, markRow_of_finalized⟩, by simp⟩
      rw [List.append_nil, runOnce_rawProtocolEvents]
  | value rows =>
      cases stepped
      refine ⟨id, [], ?_, fun _ => ⟨rfl, rfl, rfl, fun _ => rfl⟩, by simp⟩
      rw [List.map_id, List.append_nil]
      rfl

/-- A step keeps every key. -/
theorem storedKey_step {a : GrowthAction} (stepped : history.step db a = some db')
    {row : PreparedRow} (stored : StoredKey db row) : StoredKey db' row := by
  obtain ⟨update, new, events, keeps, _⟩ := step_events stepped
  refine StoredKey.mono stored fun e member => ⟨update e, ?_, ?_⟩
  · rw [events]
    exact List.mem_append_left _ (List.mem_map_of_mem member)
  · exact congrArg preparedKey (keeps e).1

/-- A step without new events keeps the log free of gaps. -/
theorem inOrder_of_map {update : RawEvent → RawEvent} (holds : history.InOrder db)
    (events : db'.rawProtocolEvents = db.rawProtocolEvents.map update)
    (keeps : ∀ e, (update e).toPreparedRow = e.toPreparedRow) : history.InOrder db' := by
  have kept : ∀ e ∈ db.rawProtocolEvents, ∃ e' ∈ db'.rawProtocolEvents, e'.logKey = e.logKey := by
    intro e member
    refine ⟨update e, ?_, congrArg preparedKey (keeps e)⟩
    rw [events]
    exact List.mem_map_of_mem member
  constructor
  · intro e member
    rw [events] at member
    obtain ⟨old, stored, rfl⟩ := List.mem_map.mp member
    rw [keeps]
    exact holds.fromHistory old stored
  · intro e member row listed sameContract before
    rw [events] at member
    obtain ⟨old, stored, rfl⟩ := List.mem_map.mp member
    rw [keeps] at sameContract before
    exact StoredKey.mono (holds.noGap old stored row listed sameContract before) kept

/-- A chunk that leaves no gap below itself keeps the log free of gaps. -/
theorem inOrder_index {contract : ContractKind} {fromBlock toBlock firstId : ℤ}
    (holds : history.InOrder db)
    (allowed : history.leavesNoGap db (.index contract fromBlock toBlock firstId))
    (stepped : history.step db (.index contract fromBlock toBlock firstId) = some db') :
    history.InOrder db' := by
  have kept : ∀ {row}, StoredKey db row → StoredKey db' row := storedKey_step stepped
  simp only [step, Option.ite_none_right_eq_some, Option.some.injEq] at stepped
  obtain ⟨_, rfl⟩ := stepped
  constructor
  · intro e member
    rcases mem_insertEvents member with old | ⟨row, offered, rfl⟩
    · exact holds.fromHistory e old
    · exact (mem_chunk.mp ((mem_numbered firstId).mp ⟨row.1, offered⟩)).1
  · intro e member row listed sameContract before
    rcases mem_insertEvents member with old | ⟨own, offered, rfl⟩
    · exact kept (holds.noGap e old row listed sameContract before)
    · obtain ⟨_, ofContract, _, upTo⟩ := mem_chunk.mp ((mem_numbered firstId).mp ⟨own.1, offered⟩)
      have contracts : row.contractName = contract := sameContract.trans ofContract
      by_cases inChunk : fromBlock ≤ row.blockNumber
      · have chunked := mem_chunk.mpr ⟨listed, contracts, inChunk, before.le.trans upTo⟩
        obtain ⟨id, numberedRow⟩ := (mem_numbered firstId).mpr chunked
        exact exists_logKey_insertEvents db.rawProtocolEvents numberedRow
      · exact kept (allowed row listed contracts (not_le.mp inChunk))

/-- **Chunks that leave no gap below themselves keep the log free of gaps.** -/
theorem inOrder_step (db : Db) (a : GrowthAction) (db' : Db) (holds : history.InOrder db)
    (allowed : history.leavesNoGap db a) (stepped : history.step db a = some db') :
    history.InOrder db' := by
  cases a with
  | index contract fromBlock toBlock firstId => exact inOrder_index holds allowed stepped
  | finalize now latestTs finalizedTs =>
      cases stepped
      exact inOrder_of_map holds (runOnce_rawProtocolEvents ..) fun _ => markRow_toPreparedRow
  | value rows =>
      cases stepped
      exact inOrder_of_map holds (List.map_id _).symm fun _ => rfl

theorem inOrder_empty : history.InOrder Db.empty where
  fromHistory _ member := absurd member List.not_mem_nil
  noGap _ member := absurd member List.not_mem_nil

/-- **In a log without gaps, an event shows that all earlier ones of its contract are stored.** -/
theorem storedKey_of_later (holds : history.InOrder db) {e : RawEvent}
    (member : e ∈ db.rawProtocolEvents) {row : PreparedRow} (listed : row ∈ history.rows)
    (sameContract : row.contractName = e.contractName)
    (earlier : row.blockTimestamp < e.blockTimestamp) : StoredKey db row :=
  holds.noGap e member row listed sameContract
    (history.timely row listed e.toPreparedRow (holds.fromHistory e member) earlier)

end ChainHistory

end ProtocolExplorer.Indexer
