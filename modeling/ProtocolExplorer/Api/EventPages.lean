import ProtocolExplorer.Lib.CursorWalk
import ProtocolExplorer.Lib.DecimalText
import ProtocolExplorer.Api.Governance
import ProtocolExplorer.Api.Reports
import ProtocolExplorer.Api.TranscoderParams

/-!
# Pages of events

The event list, the vote history and the ticket history are paged by a token that names a block and
a log index.  Events are unique by transaction and log index: rows of a reorganised block stay in
the table, and may share the block number and the log index of those that replaced them.

* `decode_encode` — a token is read back as it was written;
* `listed_of_serves` — what a client that follows the tokens has seen at the end;
* `pagesExact_iff` — **every list is paged exactly if and only if no page ends between two matching
  rows of one block and log index**;
* `reorgedTwin_lost` — a list with reorganised rows that loses one.
-/

set_option autoImplicit false

namespace ProtocolExplorer.Api.EventPages

open ProtocolExplorer.Lib
open ProtocolExplorer.Store (Address TxHash BlockHash Timestamp Numeric Version RawEvent EventName
  ContractKind Finality Asset Db ValuationRow)
open ProtocolExplorer.Api.Transcoders (ApiError)

/-! ## Tokens -/

structure Cursor where
  blockNumber : ℤ
  logIndex : ℤ
  deriving DecidableEq

namespace Cursor

/-- `format!("B{}:{}", ..)`. -/
def encode (c : Cursor) : String :=
  String.ofList ('B' :: (intText c.blockNumber ++ ':' :: intText c.logIndex))

def decode (s : String) : Except ApiError Cursor :=
  match s.toList with
  | 'B' :: stripped =>
      match splitOnce ':' stripped with
      | none => .error (.badRequest "invalid cursor")
      | some (block, logIndex) =>
          match parseInt 64 block with
          | none => .error (.badRequest "invalid cursor block")
          | some blockNumber =>
              match parseInt 32 logIndex with
              | none => .error (.badRequest "invalid cursor log_index")
              | some logIndex => .ok ⟨blockNumber, logIndex⟩
  | _ => .error (.badRequest "invalid cursor")

/-- The columns are a `BIGINT` and an `INT`. -/
def Fits (c : Cursor) : Prop := FitsInt 64 c.blockNumber ∧ FitsInt 32 c.logIndex

instance (c : Cursor) : Decidable c.Fits := inferInstanceAs (Decidable (_ ∧ _))

theorem decode_encode {c : Cursor} (fits : c.Fits) : decode c.encode = .ok c := by
  have noColon : ':' ∉ intText c.blockNumber := notMem_intText (by decide) (by decide)
  have split := splitOnce_append noColon (intText c.logIndex)
  unfold decode encode
  rw [String.toList_ofList]
  simp only [split, parseInt_intText fits.1, parseInt_intText fits.2]

end Cursor

/-- The directions of the lists; a descending list is in order of the negated positions. -/
inductive Direction where
  | asc
  | desc
  deriving DecidableEq

def Direction.key : Direction → Cursor → Lex (ℤ × ℤ)
  | asc, c => toLex (c.blockNumber, c.logIndex)
  | desc, c => toLex (-c.blockNumber, -c.logIndex)

def eventCursor (e : RawEvent) : Cursor := ⟨e.blockNumber, e.logIndex⟩

/-- `q.cursor.as_deref().map(Cursor::decode).transpose()`. -/
def decodeCursor : Option String → Except ApiError (Option Cursor)
  | none => .ok none
  | some token => (Cursor.decode token).map some

theorem decodeCursor_encode {cursor : Option Cursor} (fits : ∀ c ∈ cursor, c.Fits) :
    decodeCursor (cursor.map Cursor.encode) = .ok cursor := by
  cases cursor with
  | none => rfl
  | some c =>
      rw [Option.map_some, decodeCursor, Cursor.decode_encode (fits c rfl)]
      rfl

/-! ## Pages -/

section Pages

variable {Row View : Type} (order : ScanOrder Row) (dir : Direction) (cursorOf : Row → Cursor)

/-- The rows a query selects from a cursor on, in order. -/
def selected (rows : List Row) (cursor : Option Cursor) : List Row :=
  order.orderBy (fun row => dir.key (cursorOf row))
    (afterCursor (fun row => dir.key (cursorOf row)) (cursor.map dir.key) rows)

/-- A page of `limit` rows; a full page has a next one. -/
def fullPage (limit : ℕ) (rows : List Row) (cursor : Option Cursor) : List Row × Option String :=
  let data := (selected order dir cursorOf rows cursor).take limit
  (data, if data.length = limit then data.getLast?.map fun row => (cursorOf row).encode else none)

/-- A page of `limit` rows and a look at one row more. -/
def peekedPage (limit : ℕ) (rows : List Row) (cursor : Option Cursor) :
    List Row × Option String :=
  let fetched := (selected order dir cursorOf rows cursor).take (limit + 1)
  let data := fetched.take limit
  (data, if limit < fetched.length then data.getLast?.map fun row => (cursorOf row).encode else none)

/-- A client that follows `next_cursor` until it is null; `none` when it has to stop before. -/
def followed (serve : Option String → Except ApiError (List View × Option String)) :
    ℕ → Option String → Except ApiError (Option (List View))
  | 0, _ => .ok none
  | pages + 1, cursor =>
      match serve cursor with
      | .error err => .error err
      | .ok (data, none) => .ok (some data)
      | .ok (data, some next) => (followed serve pages (some next)).map (Option.map (data ++ ·))

/-- A client that follows the pages sees every row once and in order. -/
def PagesExact (serve : Option String → Except ApiError (List View × Option String))
    (rows : List Row) (view : Row → View) : Prop :=
  ∃ (pages : ℕ) (listed : List Row), followed serve pages none = .ok (some (listed.map view)) ∧ listed.Perm rows ∧
    listed.Pairwise fun a b => dir.key (cursorOf a) ≤ dir.key (cursorOf b)

/-- No page ends between two rows at one position. -/
def NoSplitPosition (limit : ℕ) (rows : List Row) : Prop :=
  CutsNoKey (fun row => dir.key (cursorOf row)) limit
    (orderBy (fun row => dir.key (cursorOf row)) rows)

instance (limit : ℕ) (rows : List Row) : Decidable (NoSplitPosition dir cursorOf limit rows) :=
  inferInstanceAs (Decidable (CutsNoKey _ _ _))

/-- The server answers a token with a page and the token of its last row, unless it can tell from
the number of rows left that none follows. -/
structure Serves (limit : ℕ) (goesOn : ℕ → Bool) (rows : List Row) (view : Row → View)
    (serve : Option String → Except ApiError (List View × Option String)) : Prop where
  positive : 0 < limit
  fits : ∀ row ∈ rows, (cursorOf row).Fits
  continues : ∀ n, limit < n → goesOn n = true
  answers : ∀ cursor : Option Cursor, (∀ c ∈ cursor, c.Fits) →
    serve (cursor.map Cursor.encode) =
      .ok (((selected order dir cursorOf rows cursor).take limit).map view,
        if goesOn (selected order dir cursorOf rows cursor).length then
          ((selected order dir cursorOf rows cursor).take limit).getLast?.map
            fun row => (cursorOf row).encode
        else none)

end Pages

section Client

variable {Row View : Type} {order : ScanOrder Row} {dir : Direction} {cursorOf : Row → Cursor}
  {limit : ℕ} {goesOn : ℕ → Bool} {rows : List Row} {view : Row → View}
  {serve : Option String → Except ApiError (List View × Option String)}

/-- The pages of a server are those of the walk over its rows. -/
theorem followed_of_serves (serves : Serves order dir cursorOf limit goesOn rows view serve)
    (pages : ℕ) (cursor : Option Cursor) (valid : ∀ c ∈ cursor, c.Fits)
    (enough : (selected order dir cursorOf rows cursor).length < pages) :
    followed serve pages (cursor.map Cursor.encode) =
      .ok (some ((walkPages order (fun row => dir.key (cursorOf row)) limit goesOn rows pages
        (cursor.map dir.key)).map view)) := by
  induction pages generalizing cursor with
  | zero => omega
  | succ pages inductionHypothesis =>
      have page := serves.answers cursor valid
      have perm := order.orderBy_perm (fun row => dir.key (cursorOf row))
        (afterCursor (fun row => dir.key (cursorOf row)) (cursor.map dir.key) rows)
      rw [followed, page, walkPages]
      unfold selected at enough ⊢
      split_ifs with more
      · cases ends : ((order.orderBy (fun row => dir.key (cursorOf row)) (afterCursor
          (fun row => dir.key (cursorOf row)) (cursor.map dir.key) rows)).take limit).getLast? with
        | none => simp
        | some row =>
            have listed := perm.mem_iff.mp (List.mem_of_mem_take (List.mem_of_getLast? ends))
            have stored := (mem_afterCursor.mp listed).1
            have fewer := length_afterCursor_lt listed
            have rest := inductionHypothesis (some (cursorOf row))
              (fun c own => Option.some.inj own ▸ serves.fits row stored) (by
                unfold selected
                rw [(order.orderBy_perm _ _).length_eq] at enough ⊢
                exact lt_of_lt_of_le fewer (Nat.le_of_lt_succ enough))
            rw [Option.map_some] at rest
            simp only [Option.map_some, rest, Except.map, Option.elim_some, List.map_append]
      · simp

/-- What the client has seen at the end: rows once and in order, all of them exactly if no page
ends between two rows at one position. -/
theorem listed_of_serves (serves : Serves order dir cursorOf limit goesOn rows view serve) :
    ∃ listed : List Row, followed serve (rows.length + 1) none = .ok (some (listed.map view)) ∧
      listed.Subperm rows ∧
      (listed.Pairwise fun a b => dir.key (cursorOf a) ≤ dir.key (cursorOf b)) ∧
      (listed.Perm rows ↔ NoSplitPosition dir cursorOf limit rows) := by
  have seen := followed_of_serves serves (rows.length + 1) none
    (fun _ nothing => by cases nothing) (by
      unfold selected
      rw [(order.orderBy_perm _ _).length_eq, Option.map_none, afterCursor_none]
      exact Nat.lt_succ_self _)
  refine ⟨_, seen, ?_, walkPages_pairwise order serves.positive serves.continues _, ?_⟩
  · have once := @walkPages_subperm _ _ _ (fun row => dir.key (cursorOf row)) limit goesOn rows none
      order (rows.length + 1)
    rwa [afterCursor_none] at once
  · have all := @walkPages_perm_iff _ _ _ (fun row => dir.key (cursorOf row)) limit goesOn rows none
      order serves.positive serves.continues (rows.length + 1)
      (by rw [afterCursor_none]; exact Nat.le_succ _)
    rwa [afterCursor_none] at all

/-- More pages change nothing. -/
theorem followed_mono {pages more : ℕ} {cursor : Option String} {data : List View}
    (seen : followed serve pages cursor = .ok (some data)) (le : pages ≤ more) :
    followed serve more cursor = .ok (some data) := by
  induction pages generalizing more cursor data with
  | zero => cases seen
  | succ pages inductionHypothesis =>
      obtain ⟨more, rfl⟩ := Nat.exists_eq_add_of_le' (Nat.lt_of_lt_of_le (Nat.succ_pos pages) le)
      rw [followed] at seen ⊢
      split at seen
      · cases seen
      · exact seen
      · next page next _ =>
          cases rest : followed serve pages (some next) with
          | error err =>
              rw [rest] at seen
              cases seen
          | ok others =>
              rw [rest] at seen
              cases others with
              | none => cases seen
              | some others =>
                  cases seen
                  rw [inductionHypothesis rest (Nat.le_of_succ_le_succ le)]
                  rfl

/-- **Pages are exact exactly when none ends between two rows at one position.** -/
theorem pagesExact_iff_of_serves (serves : Serves order dir cursorOf limit goesOn rows view serve) :
    PagesExact dir cursorOf serve rows view ↔ NoSplitPosition dir cursorOf limit rows := by
  obtain ⟨listed, seen, once, ordered, all⟩ := listed_of_serves serves
  rw [← all]
  constructor
  · rintro ⟨pages, other, seen', perm, _⟩
    have same : listed.map view = other.map view := by
      have both := followed_mono seen (Nat.le_max_left (rows.length + 1) pages)
      rw [followed_mono seen' (Nat.le_max_right (rows.length + 1) pages)] at both
      exact (Option.some.inj (Except.ok.inj both)).symm
    have sameLength := congrArg List.length same
    rw [List.length_map, List.length_map, perm.length_eq] at sameLength
    exact once.perm_of_length_le sameLength.ge
  · exact fun perm => ⟨_, listed, seen, perm, ordered⟩

/-- Rows at different positions are never split. -/
theorem noSplitPosition_of_distinct (distinct : (rows.map fun row => dir.key (cursorOf row)).Nodup) :
    NoSplitPosition dir cursorOf limit rows := by
  intro batch row taken later left
  have ascending := orderBy_pairwise_lt distinct
  rw [← List.take_append_drop (batch * limit)
    (orderBy (fun row => dir.key (cursorOf row)) rows)] at ascending
  exact (List.pairwise_append.mp ascending).2.2 row taken later left

/-- An endpoint that answers full pages. -/
theorem serves_fullPage (positive : 0 < limit) (fits : ∀ row ∈ rows, (cursorOf row).Fits) :
    Serves order dir cursorOf limit (fun n => decide (limit ≤ n)) rows view fun token =>
      (decodeCursor token).map fun cursor =>
        let page := fullPage order dir cursorOf limit rows cursor
        (page.1.map view, page.2) where
  positive := positive
  fits := fits
  continues _ longer := decide_eq_true longer.le
  answers cursor valid := by
    have full : ∀ n, (min limit n = limit) = (decide (limit ≤ n) = true) := fun n =>
      propext (min_eq_left_iff.trans decide_eq_true_iff.symm)
    rw [decodeCursor_encode valid, Except.map, fullPage, List.length_take]
    simp only [full]

/-- An endpoint that looks at one row more. -/
theorem serves_peekedPage (positive : 0 < limit) (fits : ∀ row ∈ rows, (cursorOf row).Fits) :
    Serves order dir cursorOf limit (fun n => decide (limit < n)) rows view fun token =>
      (decodeCursor token).map fun cursor =>
        let page := peekedPage order dir cursorOf limit rows cursor
        (page.1.map view, page.2) where
  positive := positive
  fits := fits
  continues _ longer := decide_eq_true longer
  answers cursor valid := by
    have more : ∀ n, (limit < min (limit + 1) n) = (decide (limit < n) = true) := by
      intro n
      rw [lt_min_iff, and_iff_right (Nat.lt_succ_self limit), decide_eq_true_eq]
    rw [decodeCursor_encode valid, Except.map, peekedPage, List.length_take, List.take_take,
      Nat.min_eq_left (Nat.le_succ limit)]
    simp only [more]

end Client

/-! ## The event list -/

/-- What the standard library computes. -/
structure Casing where
  toLowercase : String → String
  toUppercase : String → String

/-- `event_name`, as stored. -/
def eventText : EventName → String
  | .Reward => "Reward"
  | .Bond => "Bond"
  | .Unbond => "Unbond"
  | .Rebond => "Rebond"
  | .WithdrawStake => "WithdrawStake"
  | .TransferBond => "TransferBond"
  | .EarningsClaimed => "EarningsClaimed"
  | .WithdrawFees => "WithdrawFees"
  | .TranscoderActivated => "TranscoderActivated"
  | .TranscoderDeactivated => "TranscoderDeactivated"
  | .TranscoderUpdate => "TranscoderUpdate"
  | .TranscoderSlashed => "TranscoderSlashed"
  | .ParameterUpdate => "ParameterUpdate"
  | .SetController => "SetController"
  | .WinningTicketRedeemed => "WinningTicketRedeemed"
  | .WinningTicketTransfer => "WinningTicketTransfer"
  | .DepositFunded => "DepositFunded"
  | .ReserveFunded => "ReserveFunded"
  | .Withdrawal => "Withdrawal"
  | .Unlock => "Unlock"
  | .ReserveClaimed => "ReserveClaimed"
  | .UnlockCancelled => "UnlockCancelled"
  | .Transfer => "Transfer"
  | .Approval => "Approval"
  | .Mint => "Mint"
  | .Burn => "Burn"
  | .NewRound => "NewRound"
  | .ProposalCreated => "ProposalCreated"
  | .ProposalExecuted => "ProposalExecuted"
  | .VoteCast => "VoteCast"
  | .VoteCastWithParams => "VoteCastWithParams"
  | .ProposalCanceled => "ProposalCanceled"
  | .ProposalQueued => "ProposalQueued"

def assetText : Asset → String
  | .LPT => "LPT"
  | .ETH => "ETH"

/-- `sort` is one of `block_asc`, the default, and `block_desc`; `amount_usd_desc` has no pages. -/
structure EventsQuery where
  fromBlock : Option ℤ
  toBlock : Option ℤ
  contract : Option String
  eventName : Option String
  eventType : Option String
  fromAddress : Option String
  toAddress : Option String
  address : Option String
  txHash : Option String
  asset : Option String
  includeTentative : Bool
  includeReorged : Bool
  sort : Direction
  limit : Option ℕ
  cursor : Option String

/-- The `WHERE` clauses of `list`, without the cursor. -/
def EventsQuery.selects (casing : Casing) (q : EventsQuery) (e : RawEvent) : Bool :=
  (q.includeReorged || e.isCanonical) &&
    (q.includeTentative || decide (e.finality = .finalized)) &&
    q.fromBlock.all (fun bound => decide (bound ≤ e.blockNumber)) &&
    q.toBlock.all (fun bound => decide (e.blockNumber ≤ bound)) &&
    q.contract.all (fun name => decide (Indexer.Wire.contractText e.contractName = name)) &&
    (q.eventName.or q.eventType).all (fun name => decide (eventText e.eventName = name)) &&
    q.asset.all (fun name => decide (e.asset.map assetText = some (casing.toUppercase name))) &&
    q.fromAddress.all (fun addr => decide (e.fromAddress = some (casing.toLowercase addr))) &&
    q.toAddress.all (fun addr => decide (e.toAddress = some (casing.toLowercase addr))) &&
    q.txHash.all (fun hash => decide (e.txHash = casing.toLowercase hash)) &&
    q.address.all fun addr => decide (e.fromAddress = some (casing.toLowercase addr)) ||
      decide (e.toAddress = some (casing.toLowercase addr))

structure EventRow where
  id : ℤ
  txHash : TxHash
  logIndex : ℕ
  blockNumber : ℤ
  blockHash : BlockHash
  blockTimestamp : Timestamp
  contractName : ContractKind
  eventName : EventName
  asset : Option Asset
  amountNative : Option Numeric
  isValuable : Bool
  fromAddress : Option Address
  toAddress : Option Address
  finality : Finality
  isCanonical : Bool
  deriving DecidableEq

/-- `row_to_event`. -/
def rowToEvent (e : RawEvent) : EventRow where
  id := e.id
  txHash := e.txHash
  logIndex := e.logIndex
  blockNumber := e.blockNumber
  blockHash := e.blockHash
  blockTimestamp := e.blockTimestamp
  contractName := e.contractName
  eventName := e.eventName
  asset := e.asset
  amountNative := e.amountNormalized
  isValuable := e.isValuable
  fromAddress := e.fromAddress
  toAddress := e.toAddress
  finality := e.finality
  isCanonical := e.isCanonical

/-- `list`. -/
def list (casing : Casing) (order : ScanOrder RawEvent) (rows : List RawEvent) (q : EventsQuery) :
    Except ApiError (List EventRow × Option String) :=
  (decodeCursor q.cursor).map fun cursor =>
    let page := fullPage order q.sort eventCursor (Governance.pageLimit q.limit)
      (rows.filter (q.selects casing)) cursor
    (page.1.map rowToEvent, page.2)

/-! ## The vote history -/

structure VotesQuery where
  proposalId : Option String
  /-- After `normalize_addr`. -/
  voter : Option Address
  limit : Option ℕ
  cursor : Option String

/-- `votes`. -/
def votes (order : ScanOrder RawEvent) (rows : List RawEvent) (q : VotesQuery) :
    Except ApiError (List Governance.VoteRow × Option String) :=
  (decodeCursor q.cursor).map fun cursor =>
    let page := peekedPage order .desc eventCursor (Governance.pageLimit q.limit)
      (Governance.voteRows rows q.proposalId q.voter) cursor
    (page.1.map Governance.voteRow, page.2)

/-! ## The ticket history -/

/-- A ticket with its priced valuation and the fee share in force. -/
structure TicketJoin where
  event : RawEvent
  valuation : ValuationRow
  amountUsd : Numeric
  feeShareRaw : ℕ

/-- `TicketHistoryFetch`; the addresses are normalized and the days parsed. -/
structure TicketHistoryFetch where
  orchestrator : Option Address
  gateway : Option Address
  startDay : Option ℤ
  endDay : Option ℤ
  valuationVersion : Version
  limit : Option ℕ
  cursor : Option String

/-- The `WHERE` clauses of `fetch_ticket_history`, without the cursor. -/
def TicketHistoryFetch.selects (q : TicketHistoryFetch) (e : RawEvent) : Bool :=
  decide (e.eventName = .WinningTicketRedeemed) && e.isCanonical &&
    decide (e.finality = .finalized) &&
    q.orchestrator.all (fun addr => decide (e.toAddress = some addr)) &&
    q.gateway.all (fun addr => decide (e.fromAddress = some addr)) &&
    q.startDay.all (fun day => decide (startOfDay day ≤ e.blockTimestamp)) &&
    q.endDay.all fun day => decide (e.blockTimestamp < startOfDay (day + 1))

/-- The joined row of an event. -/
def TicketHistoryFetch.rowOf (q : TicketHistoryFetch) (db : Db) (e : RawEvent) :
    Option TicketJoin :=
  if q.selects e then
    (db.eventValuations.lookup (e.id, q.valuationVersion, .ETH)).bind fun v =>
      v.amountUsd.map fun usd => ⟨e, v, usd, shareRaw .payouts db.rawProtocolEvents e⟩
  else none

def TicketHistoryFetch.rows (q : TicketHistoryFetch) (db : Db) : List TicketJoin :=
  db.rawProtocolEvents.filterMap (q.rowOf db)

structure TicketHistoryRow where
  eventId : ℤ
  txHash : TxHash
  blockNumber : ℤ
  blockTimestamp : Timestamp
  gatewayAddress : Option Address
  orchestratorAddress : Option Address
  faceValue : Numeric
  faceValueUsd : Numeric
  feeSharePercent : ℚ
  feeCutPercent : ℚ
  valuationVersion : Version

def ticketHistoryRow (row : TicketJoin) : TicketHistoryRow where
  eventId := row.event.id
  txHash := row.event.txHash
  blockNumber := row.event.blockNumber
  blockTimestamp := row.event.blockTimestamp
  gatewayAddress := row.event.fromAddress
  orchestratorAddress := row.event.toAddress
  faceValue := row.valuation.amountNative
  faceValueUsd := row.amountUsd
  feeSharePercent := rawPercentToPercent row.feeShareRaw
  feeCutPercent := rawPercentToPercent (percentDenominator - row.feeShareRaw)
  valuationVersion := row.valuation.valuationVersion

/-- `fetch_ticket_history`, for the two routes of the ticket history. -/
def fetchTicketHistory (order : ScanOrder TicketJoin) (db : Db) (q : TicketHistoryFetch) :
    Except ApiError (List TicketHistoryRow × Option String) :=
  (decodeCursor q.cursor).map fun cursor =>
    let page := peekedPage order .desc (fun row => eventCursor row.event)
      (Governance.pageLimit q.limit) (q.rows db) cursor
    (page.1.map ticketHistoryRow, page.2)

/-! ## All lists -/

/-- The rows fit their columns. -/
def ColumnsFit (rows : List RawEvent) : Prop := ∀ e ∈ rows, (eventCursor e).Fits

instance (rows : List RawEvent) : Decidable (ColumnsFit rows) :=
  inferInstanceAs (Decidable (∀ e ∈ rows, _))

theorem TicketHistoryFetch.mem_rows {q : TicketHistoryFetch} {db : Db} {row : TicketJoin}
    (joined : row ∈ q.rows db) : row.event ∈ db.rawProtocolEvents := by
  obtain ⟨e, stored, own⟩ := List.mem_filterMap.mp joined
  unfold TicketHistoryFetch.rowOf at own
  split_ifs at own
  obtain ⟨v, _, priced⟩ := Option.bind_eq_some_iff.mp own
  obtain ⟨usd, _, rfl⟩ := Option.map_eq_some_iff.mp priced
  exact stored

/-- **Each of the three lists is paged exactly if and only if no page ends between two matching rows
at one position.** -/
theorem pagesExact_iff (casing : Casing) (order : ScanOrder RawEvent)
    (ticketOrder : ScanOrder TicketJoin) (db : Db) (fits : ColumnsFit db.rawProtocolEvents)
    (events : EventsQuery) (votesQuery : VotesQuery) (tickets : TicketHistoryFetch)
    (limits : ∀ limit ∈ [events.limit, votesQuery.limit, tickets.limit], limit ≠ some 0) :
    (PagesExact events.sort eventCursor
        (fun token => list casing order db.rawProtocolEvents { events with cursor := token })
        (db.rawProtocolEvents.filter (events.selects casing)) rowToEvent ↔
      NoSplitPosition events.sort eventCursor (Governance.pageLimit events.limit)
        (db.rawProtocolEvents.filter (events.selects casing))) ∧
    (PagesExact .desc eventCursor
        (fun token => votes order db.rawProtocolEvents { votesQuery with cursor := token })
        (Governance.voteRows db.rawProtocolEvents votesQuery.proposalId votesQuery.voter)
        Governance.voteRow ↔
      NoSplitPosition .desc eventCursor (Governance.pageLimit votesQuery.limit)
        (Governance.voteRows db.rawProtocolEvents votesQuery.proposalId votesQuery.voter)) ∧
    (PagesExact .desc (fun row : TicketJoin => eventCursor row.event)
        (fun token => fetchTicketHistory ticketOrder db { tickets with cursor := token })
        (tickets.rows db) ticketHistoryRow ↔
      NoSplitPosition .desc (fun row : TicketJoin => eventCursor row.event)
        (Governance.pageLimit tickets.limit) (tickets.rows db)) := by
  have positive : ∀ {limit}, limit ∈ [events.limit, votesQuery.limit, tickets.limit] →
      0 < Governance.pageLimit limit := by
    intro limit listed
    have given := limits limit listed
    unfold Governance.pageLimit
    cases limit with
    | none => decide
    | some n =>
        have nonzero : n ≠ 0 := fun zero => given (congrArg some zero)
        exact lt_min (Nat.pos_of_ne_zero nonzero) (by decide)
  refine ⟨?_, ?_, ?_⟩
  · exact pagesExact_iff_of_serves (serves_fullPage (positive (by simp)) fun row selected =>
      fits row (List.mem_of_mem_filter selected))
  · exact pagesExact_iff_of_serves (serves_peekedPage (positive (by simp)) fun row selected =>
      fits row (List.mem_of_mem_filter selected))
  · exact pagesExact_iff_of_serves (serves_peekedPage (positive (by simp)) fun row joined =>
      fits row.event (TicketHistoryFetch.mem_rows joined))

/-! ## A reorganised row -/

/-- An event of block 100 with log index 5, before and after a reorganisation of the block. -/
def twin (id : ℤ) (txHash : TxHash) (isCanonical : Bool) : RawEvent where
  txHash
  logIndex := 5
  blockNumber := 100
  blockHash := "0xb"
  blockTimestamp := 1700000000000000
  contractName := .BondingManager
  eventName := .SetController
  asset := none
  amountNormalized := none
  isValuable := false
  fromAddress := none
  toAddress := none
  decoded := .none
  amount_of_asset := fun absent => absent
  id
  finality := .finalized
  isCanonical
  finalizedAt := none

def twins : List RawEvent := [twin 1 "0xaa" false, twin 2 "0xbb" true]

/-- A list with reorganised rows. -/
def withReorged (limit : ℕ) : EventsQuery where
  fromBlock := none
  toBlock := none
  contract := none
  eventName := none
  eventType := none
  fromAddress := none
  toAddress := none
  address := none
  txHash := none
  asset := none
  includeTentative := false
  includeReorged := true
  sort := .asc
  limit := some limit
  cursor := none

def plainCasing : Casing := ⟨String.toLower, String.toUpper⟩

/-- Rows come as they are stored. -/
def storedOrder (Row : Type) : ScanOrder Row := ⟨id, List.Perm.refl⟩

/-- Pages of one row lose one of the two. -/
theorem reorgedTwin_lost : ¬ PagesExact .asc eventCursor
    (fun token => list plainCasing (storedOrder RawEvent) twins { withReorged 1 with cursor := token })
    (twins.filter ((withReorged 1).selects plainCasing)) rowToEvent := by
  have serves := @serves_fullPage RawEvent EventRow (storedOrder RawEvent) .asc eventCursor 1
    (twins.filter ((withReorged 1).selects plainCasing)) rowToEvent Nat.one_pos (by decide)
  exact fun exact_ => absurd ((pagesExact_iff_of_serves serves).mp exact_) (by decide)

/-- Pages of two rows do not. -/
theorem reorgedTwins_listed : PagesExact .asc eventCursor
    (fun token => list plainCasing (storedOrder RawEvent) twins { withReorged 2 with cursor := token })
    (twins.filter ((withReorged 2).selects plainCasing)) rowToEvent :=
  (pagesExact_iff plainCasing (storedOrder RawEvent) (storedOrder TicketJoin)
    { Db.empty with rawProtocolEvents := twins } (by decide) (withReorged 2)
    ⟨none, none, none, none⟩ ⟨none, none, none, none, "v1", none, none⟩ (by decide)).1.mpr (by decide)

end ProtocolExplorer.Api.EventPages
