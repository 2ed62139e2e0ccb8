import ProtocolExplorer.Valuator.Bulk
import ProtocolExplorer.Valuator.Cursor

/-!
# The on-chain passes

The ETH, LPT and multi-asset passes share one shape: read the floor, fetch the candidates,
price them one by one into the buffers, flush, read the frontier, advance the cursor.  They
differ in their universe, in the versions under which an outcome counts, and in what a
pricing result records.  Pricing itself reads the chain and is a parameter here: its result
is an outcome with the prices it used, or an error.

A TWAP price is recorded under the fixed version `twapVersion` and a degraded price under
`degradedVersion`, whatever version the pass was asked for; all other outcomes go under the
requested version.
-/

set_option autoImplicit false

namespace ProtocolExplorer.Valuator

open ProtocolExplorer.Lib
open ProtocolExplorer.Store

/-! ## Candidates -/

/-- Is there a valuation, or a failed attempt, for the event under one of the versions? -/
def hasOutcome (versions : List Version) (asset : Asset) (db : Db) (eventId : ℤ) : Bool :=
  versions.any fun version =>
    decide ((eventId, version, asset) ∈ db.eventValuations.keys) ||
      decide (∃ key ∈ db.valuationAttempts.keys, key.1 = (eventId, version, asset) ∧
        (db.valuationAttempts.lookup key).any (·.resultStatus.isFailed))

/-- The anti-join of a pass at a version: does the event still need work? -/
def needsWork (pass : PassName) (version : Version) (db : Db) (e : RawEvent) : Bool :=
  match pass with
  | .ETH => !hasOutcome [version] .ETH db e.id
  | .LPT => !hasOutcome [version, degradedVersion] .LPT db e.id
  | .MULTI =>
      !hasOutcome [version, degradedVersion] .LPT db e.id ||
        !hasOutcome [version, degradedVersion] .ETH db e.id
  | .SEED => false

/-- The candidate query of a pass, in chain order. -/
def fetchCandidatesOf (pass : PassName) (version : Version) (includeTentative : Bool)
    (floor : Timestamp) (db : Db) : List RawEvent :=
  orderBy RawEvent.position (db.rawProtocolEvents.filter fun e =>
    inUniverse pass e && e.eligible includeTentative &&
      (includeTentative || e.finalizedAt.any fun stamp => decide (floor ≤ stamp)) &&
      needsWork pass version db e)

/-- `fetch_eth_candidates`. -/
def fetchEthCandidates := fetchCandidatesOf .ETH

/-- `fetch_lpt_candidates`. -/
def fetchLptCandidates := fetchCandidatesOf .LPT

/-- `fetch_candidates` of the multi-asset pass. -/
def fetchMultiAssetCandidates := fetchCandidatesOf .MULTI

/-! ## Pricing results -/

inductive PricingOutcome where
  | priced (nativeUsdPrice amountUsd : ℚ) (pricingChain : String)
  | sequencerOutage (detail : String)
  | missingOracle (detail : String)
  deriving DecidableEq

inductive LptOutcome where
  | pricedTwap (nativeUsdPrice amountUsd : ℚ) (pricingChain : String)
  | pricedDegraded (nativeUsdPrice amountUsd : ℚ) (pricingChain : String)
  | sequencerOutage (detail : String)
  | missingOracle (detail : String)
  | missingPool (detail : String)
  deriving DecidableEq

/-- The result of a pricing helper: an outcome and the prices to mirror, or an error. -/
abbrev Pricing (Outcome : Type) := Except String (Outcome × List PriceRow)

/-- What the helpers answer for one event. -/
structure PricingResults where
  eth : Pricing PricingOutcome
  lpt : Pricing LptOutcome

/-- Does a text contain another? -/
def containsText (text part : String) : Bool := decide (part.toList <:+: text.toList)

/-- A JSON object of string fields. -/
def jsonObject (fields : List (String × String)) : String :=
  "\x7b" ++ ",".intercalate (fields.map fun (name, value) =>
    "\"" ++ name ++ "\":\"" ++ value ++ "\"") ++ "\x7d"

/-- `permanent_lpt_failure_detail`: reverts are deterministic at a block. -/
def permanentLptFailureDetail (error : String) : Option String :=
  let lower := error.toLower
  if containsText lower "execution reverted: old" then
    some (jsonObject
      [("reason", "observe() cannot serve the requested TWAP window at this block"),
        ("classification", "failed_missing_pool"), ("error", error)])
  else if containsText lower "execution reverted" then
    some (jsonObject
      [("reason", "deterministic eth_call revert while pricing LPT at this finalized block"),
        ("classification", "failed_missing_pool"), ("error", error)])
  else none

/-! ## Recording a result -/

def pricingMethodEth : String := "chainlink_eth_usd"
def sourceEth : String := "chainlink_dual_rpc"
def pricingMethodLptTwap : String := "uniswap_v3_twap_30min_x_chainlink_eth"
def pricingMethodLptSpot : String := "uniswap_v3_spot_x_chainlink_eth"
def sourceLpt : String := "uniswap_v3_dual_rpc"

/-- The match on an ETH result; the flag says that the event is left for a retry. -/
def recordEth (version : Version) (e : RawEvent) (amount : Numeric)
    (result : Pricing PricingOutcome) (buffers : BulkBuffers) : BulkBuffers × Bool :=
  let failed := buffers.pushFailedOutcome e.id version .ETH pricingMethodEth sourceEth
    e.blockNumber amount
  match result with
  | .ok (.priced nativeUsdPrice amountUsd pricingChain, prices) =>
      ((buffers.pushPrices prices).pushPriced e.id version .ETH pricingMethodEth sourceEth
        e.blockNumber amount (Decimal.ofRat nativeUsdPrice) (Decimal.ofRat amountUsd)
        pricingChain, false)
  | .ok (.sequencerOutage detail, _) => (failed .failedSequencerOutage detail, false)
  | .ok (.missingOracle detail, _) => (failed .failedMissingOracle detail, false)
  | .error _ => (buffers, true)

/-- The match on an LPT result. -/
def recordLpt (version : Version) (e : RawEvent) (amount : Numeric)
    (result : Pricing LptOutcome) (buffers : BulkBuffers) : BulkBuffers × Bool :=
  let failed := buffers.pushFailedOutcome e.id version .LPT pricingMethodLptTwap sourceLpt
    e.blockNumber amount
  match result with
  | .ok (.pricedTwap nativeUsdPrice amountUsd pricingChain, prices) =>
      ((buffers.pushPrices prices).pushPriced e.id twapVersion .LPT pricingMethodLptTwap
        sourceLpt e.blockNumber amount (Decimal.ofRat nativeUsdPrice) (Decimal.ofRat amountUsd)
        pricingChain, false)
  | .ok (.pricedDegraded nativeUsdPrice amountUsd pricingChain, prices) =>
      ((buffers.pushPrices prices).pushPriced e.id degradedVersion .LPT pricingMethodLptSpot
        sourceLpt e.blockNumber amount (Decimal.ofRat nativeUsdPrice) (Decimal.ofRat amountUsd)
        pricingChain, false)
  | .ok (.sequencerOutage detail, _) => (failed .failedSequencerOutage detail, false)
  | .ok (.missingOracle detail, _) => (failed .failedMissingOracle detail, false)
  | .ok (.missingPool detail, _) => (failed .failedMissingPool detail, false)
  | .error error =>
      match permanentLptFailureDetail error with
      | some detail => (failed .failedMissingPool detail, false)
      | none => (buffers, true)

/-- `push_zero_row`. -/
def pushZeroRow (buffers : BulkBuffers) (eventId : ℤ) (version : Version) (asset : Asset)
    (blockNumber : ℤ) (pricingChain : String) : BulkBuffers :=
  buffers.pushPriced eventId version asset "no_amount" "no_amount" blockNumber 0 0 0 pricingChain

/-- The claimed amounts, zero when the payload has none. -/
def claimedAmount (wei : Option ℕ) : Numeric := ⟨(wei.getD 0 : ℕ)⟩

/-- The rewards of a claim; a zero amount becomes a zero row. -/
def recordRewards (version : Version) (e : RawEvent) (results : PricingResults)
    (buffers : BulkBuffers) : BulkBuffers × Bool :=
  let rewards := claimedAmount e.decoded.rewards
  if rewards = 0 then
    (pushZeroRow buffers e.id version .LPT e.blockNumber
      (jsonObject [("reason", "EarningsClaimed.rewards == 0")]), false)
  else recordLpt version e rewards results.lpt buffers

/-- The fees of a claim. -/
def recordFees (version : Version) (e : RawEvent) (results : PricingResults)
    (buffers : BulkBuffers) : BulkBuffers × Bool :=
  let fees := claimedAmount e.decoded.fees
  if fees = 0 then
    (pushZeroRow buffers e.id version .ETH e.blockNumber
      (jsonObject [("reason", "EarningsClaimed.fees == 0")]), false)
  else recordEth version e fees results.eth buffers

/-- The body of the multi-asset loop: both halves are recorded. -/
def recordMulti (version : Version) (e : RawEvent) (results : PricingResults)
    (buffers : BulkBuffers) : BulkBuffers × Bool :=
  let (withLpt, lptTransient) := recordRewards version e results buffers
  let (withEth, ethTransient) := recordFees version e results withLpt
  (withEth, lptTransient || ethTransient)

/-- The body of a pass's loop.  A single-asset row without an amount is skipped. -/
def recordEvent (pass : PassName) (version : Version) (results : PricingResults) (e : RawEvent)
    (buffers : BulkBuffers) : BulkBuffers × Bool :=
  match pass, e.amountNormalized with
  | .ETH, some amount => recordEth version e amount results.eth buffers
  | .LPT, some amount => recordLpt version e amount results.lpt buffers
  | .MULTI, _ => recordMulti version e results buffers
  | _, _ => (buffers, false)

/-- `min_unresolved` after an event. -/
def pin (transient : Bool) (finalizedAt minUnresolved : Option Timestamp) : Option Timestamp :=
  match transient, finalizedAt with
  | true, some stamp => some (minUnresolved.elim stamp fun oldest => min oldest stamp)
  | _, _ => minUnresolved

/-! ## Outcomes only accumulate -/

theorem hasOutcome_eq_true {versions : List Version} {asset : Asset} {db : Db} {eventId : ℤ} :
    hasOutcome versions asset db eventId = true ↔ ∃ version ∈ versions,
      (eventId, version, asset) ∈ db.eventValuations ∨
        ∃ key row, db.valuationAttempts.lookup key = some row ∧
          key.1 = (eventId, version, asset) ∧ row.resultStatus.isFailed = true := by
  unfold hasOutcome
  rw [List.any_eq_true]
  refine exists_congr fun version => and_congr_right fun _ => ?_
  rw [Bool.or_eq_true, decide_eq_true_eq, decide_eq_true_eq, Finmap.mem_keys]
  refine or_congr_right ?_
  constructor
  · rintro ⟨key, _, same, failed⟩
    cases found : db.valuationAttempts.lookup key with
    | none => simp [found] at failed
    | some row => exact ⟨key, row, found, same, by simpa [found] using failed⟩
  · rintro ⟨key, row, found, same, status⟩
    refine ⟨key, Finmap.mem_keys.mpr (Finmap.mem_of_lookup_eq_some found), same, ?_⟩
    simpa [found] using status

/-- Inserting valuations adds the outcomes of the inserted keys. -/
theorem hasOutcome_insertValuations {versions : List Version} {asset : Asset}
    {rows : List ValuationRow} {db : Db} {eventId : ℤ} :
    hasOutcome versions asset (insertValuations rows db) eventId = true ↔
      hasOutcome versions asset db eventId = true ∨
        ∃ row ∈ rows, ∃ version ∈ versions, row.key = (eventId, version, asset) := by
  have keys : ∀ key, key ∈ (insertValuations rows db).eventValuations ↔
      key ∈ db.eventValuations ∨ ∃ row ∈ rows, row.key = key :=
    fun key => Table.mem_foldl_insertNew ValuationRow.key id db.eventValuations
  rw [hasOutcome_eq_true, hasOutcome_eq_true]
  constructor
  · rintro ⟨version, listed, stored | attempted⟩
    · rcases (keys _).mp stored with old | ⟨row, member, same⟩
      · exact Or.inl ⟨version, listed, Or.inl old⟩
      · exact Or.inr ⟨row, member, version, listed, same⟩
    · exact Or.inl ⟨version, listed, Or.inr attempted⟩
  · rintro (⟨version, listed, stored | attempted⟩ | ⟨row, member, version, listed, same⟩)
    · exact ⟨version, listed, Or.inl ((keys _).mpr (Or.inl stored))⟩
    · exact ⟨version, listed, Or.inr attempted⟩
    · exact ⟨version, listed, Or.inl ((keys _).mpr (Or.inr ⟨row, member, same⟩))⟩

/-- A change that touches neither events nor cursors and loses no outcome. -/
structure OutcomesGrow (db db' : Db) : Prop where
  events : db'.rawProtocolEvents = db.rawProtocolEvents
  cursors : db'.valuatorCursors = db.valuatorCursors
  outcomes : ∀ versions asset eventId, hasOutcome versions asset db eventId = true →
    hasOutcome versions asset db' eventId = true

theorem OutcomesGrow.trans {db db' db'' : Db} (first : OutcomesGrow db db')
    (second : OutcomesGrow db' db'') : OutcomesGrow db db'' where
  events := second.events.trans first.events
  cursors := second.cursors.trans first.cursors
  outcomes versions asset eventId known :=
    second.outcomes versions asset eventId (first.outcomes versions asset eventId known)

theorem outcomesGrow_insertValuations (rows : List ValuationRow) (db : Db) :
    OutcomesGrow db (insertValuations rows db) where
  events := rfl
  cursors := rfl
  outcomes _ _ _ known := hasOutcome_insertValuations.mpr (Or.inl known)

theorem outcomesGrow_insertAttempts (rows : List AttemptRow) (db : Db) :
    OutcomesGrow db (insertAttempts rows db) where
  events := rfl
  cursors := rfl
  outcomes versions asset eventId known := by
    obtain ⟨version, listed, stored | ⟨key, row, found, same, failed⟩⟩ :=
      hasOutcome_eq_true.mp known
    · exact hasOutcome_eq_true.mpr ⟨version, listed, Or.inl stored⟩
    · exact hasOutcome_eq_true.mpr ⟨version, listed, Or.inr ⟨key, row,
        Table.lookup_foldl_insertNew_of_lookup Prod.fst Prod.snd found, same, failed⟩⟩

theorem outcomesGrow_flushStatement {buffers buffers' : BulkBuffers} {db db' : Db}
    (executed : flushStatement buffers db = some (buffers', db')) : OutcomesGrow db db' := by
  rcases flushStatement_cases executed with ⟨_, _, rfl⟩ | ⟨_, _, rfl⟩ | ⟨_, _, rfl⟩
  · exact outcomesGrow_insertValuations ..
  · exact ⟨rfl, rfl, fun _ _ _ known => known⟩
  · exact outcomesGrow_insertAttempts ..

/-- Does an event need no more work once the buffered valuations are stored? -/
def Settles (rows : List ValuationRow) (pass : PassName) (version : Version) (db : Db)
    (e : RawEvent) : Prop :=
  needsWork pass version (insertValuations rows db) e = false

theorem needsWork_antitone {db db' : Db}
    (grows : ∀ versions asset eventId, hasOutcome versions asset db eventId = true →
      hasOutcome versions asset db' eventId = true)
    {pass : PassName} {version : Version} {e : RawEvent}
    (waiting : needsWork pass version db' e = true) : needsWork pass version db e = true := by
  have keep : ∀ versions asset, hasOutcome versions asset db' e.id = false →
      hasOutcome versions asset db e.id = false := by
    intro versions asset missing
    by_contra known
    rw [grows versions asset e.id (by simpa using known)] at missing
    cases missing
  cases pass <;>
    simp only [needsWork, Bool.not_eq_true', Bool.or_eq_true, Bool.false_eq_true] at waiting ⊢
  · exact keep _ _ waiting
  · exact keep _ _ waiting
  · exact waiting.imp (keep _ _) (keep _ _)

/-- Settled events stay settled when more is buffered or stored. -/
theorem Settles.mono {rows rows' : List ValuationRow} {db db' : Db} {pass : PassName}
    {version : Version} {e : RawEvent} (settles : Settles rows pass version db e)
    (more : rows ⊆ rows')
    (grows : ∀ versions asset eventId, hasOutcome versions asset db eventId = true →
      hasOutcome versions asset db' eventId = true) : Settles rows' pass version db' e := by
  unfold Settles at settles ⊢
  by_contra waiting
  have earlier : needsWork pass version (insertValuations rows db) e = true := by
    refine needsWork_antitone (fun versions asset eventId known => ?_) (by simpa using waiting)
    rcases hasOutcome_insertValuations.mp known with stored | ⟨row, member, found⟩
    · exact hasOutcome_insertValuations.mpr (Or.inl (grows _ _ _ stored))
    · exact hasOutcome_insertValuations.mpr (Or.inr ⟨row, more member, found⟩)
  rw [settles] at earlier
  cases earlier

/-! ## What recording an event settles -/

section Recording

variable (version : Version) (e : RawEvent) (amount : Numeric) (buffers : BulkBuffers)

/-- Recording appends to the buffered valuations; a recorded ETH result settles the asset
under the requested version. -/
theorem recordEth_valuations (result : Pricing PricingOutcome) :
    ∃ rows, (recordEth version e amount result buffers).1.valuations =
        buffers.valuations ++ rows ∧
      ((recordEth version e amount result buffers).2 = false →
        ∃ row ∈ rows, row.key = (e.id, version, .ETH)) := by
  rcases result with error | ⟨price | detail | detail, prices⟩
  · exact ⟨[], by simp [recordEth], fun recorded => by simp [recordEth] at recorded⟩
  all_goals exact ⟨_, rfl, fun _ => ⟨_, List.mem_singleton_self _, rfl⟩⟩

/-- The version an LPT result is recorded under. -/
def lptVersion (version : Version) : Pricing LptOutcome → Version
  | .ok (.pricedTwap .., _) => twapVersion
  | .ok (.pricedDegraded .., _) => degradedVersion
  | _ => version

theorem recordLpt_valuations (result : Pricing LptOutcome) :
    ∃ rows, (recordLpt version e amount result buffers).1.valuations =
        buffers.valuations ++ rows ∧
      ((recordLpt version e amount result buffers).2 = false →
        ∃ row ∈ rows, row.key = (e.id, lptVersion version result, .LPT)) := by
  rcases result with error | ⟨price | price | detail | detail | detail, prices⟩
  · cases permanent : permanentLptFailureDetail error with
    | none =>
        exact ⟨[], by simp [recordLpt, permanent],
          fun recorded => by simp [recordLpt, permanent] at recorded⟩
    | some detail =>
        refine ⟨_, by rw [recordLpt, permanent]; rfl, fun _ => ⟨_, List.mem_singleton_self _, rfl⟩⟩
  all_goals exact ⟨_, rfl, fun _ => ⟨_, List.mem_singleton_self _, rfl⟩⟩

theorem recordRewards_valuations (results : PricingResults) :
    ∃ rows, (recordRewards version e results buffers).1.valuations =
        buffers.valuations ++ rows ∧
      ((recordRewards version e results buffers).2 = false →
        ∃ row ∈ rows, row.key = (e.id, version, .LPT) ∨
          claimedAmount e.decoded.rewards ≠ 0 ∧
            row.key = (e.id, lptVersion version results.lpt, .LPT)) := by
  unfold recordRewards
  by_cases zero : claimedAmount e.decoded.rewards = 0
  · rw [if_pos zero]
    exact ⟨_, rfl, fun _ => ⟨_, List.mem_singleton_self _, Or.inl rfl⟩⟩
  · rw [if_neg zero]
    obtain ⟨rows, appended, settles⟩ :=
      recordLpt_valuations version e (claimedAmount e.decoded.rewards) buffers results.lpt
    refine ⟨rows, appended, fun recorded => ?_⟩
    obtain ⟨row, member, same⟩ := settles recorded
    exact ⟨row, member, Or.inr ⟨zero, same⟩⟩

theorem recordFees_valuations (results : PricingResults) :
    ∃ rows, (recordFees version e results buffers).1.valuations = buffers.valuations ++ rows ∧
      ((recordFees version e results buffers).2 = false →
        ∃ row ∈ rows, row.key = (e.id, version, .ETH)) := by
  unfold recordFees
  by_cases zero : claimedAmount e.decoded.fees = 0
  · rw [if_pos zero]
    exact ⟨_, rfl, fun _ => ⟨_, List.mem_singleton_self _, rfl⟩⟩
  · rw [if_neg zero]
    exact recordEth_valuations version e (claimedAmount e.decoded.fees) buffers results.eth

/-- A pass only adds to its buffered valuations. -/
theorem recordEvent_valuations (pass : PassName) (results : PricingResults) :
    ∃ rows, (recordEvent pass version results e buffers).1.valuations =
      buffers.valuations ++ rows := by
  unfold recordEvent
  split
  · exact (recordEth_valuations version e _ buffers results.eth).imp fun _ added => added.1
  · exact (recordLpt_valuations version e _ buffers results.lpt).imp fun _ added => added.1
  · obtain ⟨first, withLpt, _⟩ := recordRewards_valuations version e buffers results
    obtain ⟨second, withEth, _⟩ := recordFees_valuations version e _ results
    exact ⟨first ++ second, by rw [recordMulti, withEth, withLpt, List.append_assoc]⟩
  · exact ⟨[], (List.append_nil _).symm⟩

/-- Does the pass read the LPT result for this event? -/
def readsLpt (pass : PassName) (e : RawEvent) : Bool :=
  match pass with
  | .LPT => true
  | .MULTI => decide (claimedAmount e.decoded.rewards ≠ 0)
  | _ => false

/-- The LPT result, if the pass reads one, is recorded under a version the pass looks for. -/
def recordedUnder (pass : PassName) (version : Version) (results : PricingResults)
    (e : RawEvent) : Prop :=
  readsLpt pass e = true → lptVersion version results.lpt ∈ [version, degradedVersion]

instance (pass : PassName) (version : Version) (results : PricingResults) (e : RawEvent) :
    Decidable (recordedUnder pass version results e) :=
  inferInstanceAs (Decidable (_ → _))

variable {version e buffers}

/-- A buffered row under a version the pass looks for is an outcome once it is stored. -/
theorem hasOutcome_of_buffered {rows : List ValuationRow} {row : ValuationRow}
    {versions : List Version} {asset : Asset} {found : Version} {db : Db} (member : row ∈ rows)
    (same : row.key = (e.id, found, asset)) (listed : found ∈ versions) :
    hasOutcome versions asset (insertValuations rows db) e.id = true :=
  hasOutcome_insertValuations.mpr (Or.inr ⟨row, member, found, listed, same⟩)

/-- **An event of the universe that is not left for a retry is settled by what was
recorded.** -/
theorem recordEvent_settles {pass : PassName} {results : PricingResults} {db : Db}
    (candidate : inUniverse pass e = true) (listed : recordedUnder pass version results e)
    (recorded : (recordEvent pass version results e buffers).2 = false) :
    Settles (recordEvent pass version results e buffers).1.valuations pass version db e := by
  obtain ⟨⟨valuable, canonical⟩, about⟩ :
      (e.isValuable = true ∧ e.isCanonical = true) ∧ _ = true := by
    simpa only [inUniverse, Bool.and_eq_true] using candidate
  have amountOf : ∀ asset, e.asset = some asset → ∃ amount, e.amountNormalized = some amount :=
    fun asset named => Option.isSome_iff_exists.mp (e.amount_of_asset (by simp [named]))
  cases pass with
  | ETH =>
      obtain ⟨amount, carried⟩ := amountOf .ETH (of_decide_eq_true about)
      simp only [recordEvent, carried] at recorded ⊢
      obtain ⟨rows, added, settles⟩ := recordEth_valuations version e amount buffers results.eth
      obtain ⟨row, member, same⟩ := settles recorded
      simp only [Settles, needsWork, Bool.not_eq_false']
      exact hasOutcome_of_buffered (added ▸ List.mem_append_right _ member) same (by simp)
  | LPT =>
      obtain ⟨amount, carried⟩ := amountOf .LPT (of_decide_eq_true about)
      simp only [recordEvent, carried] at recorded ⊢
      obtain ⟨rows, added, settles⟩ := recordLpt_valuations version e amount buffers results.lpt
      obtain ⟨row, member, same⟩ := settles recorded
      simp only [Settles, needsWork, Bool.not_eq_false']
      exact hasOutcome_of_buffered (added ▸ List.mem_append_right _ member) same (listed rfl)
  | MULTI =>
      obtain ⟨rewardsDone, feesDone⟩ := Bool.or_eq_false_iff.mp recorded
      obtain ⟨first, withLpt, settlesLpt⟩ := recordRewards_valuations version e buffers results
      obtain ⟨second, withEth, settlesEth⟩ := recordFees_valuations version e
        (recordRewards version e results buffers).1 results
      obtain ⟨lptRow, inFirst, lptKey⟩ := settlesLpt rewardsDone
      obtain ⟨ethRow, inSecond, ethKey⟩ := settlesEth feesDone
      have buffered : (recordEvent .MULTI version results e buffers).1.valuations =
          buffers.valuations ++ first ++ second := by
        rw [← withLpt]
        exact withEth
      rw [buffered]
      simp only [Settles, needsWork, Bool.or_eq_false_iff, Bool.not_eq_false']
      refine ⟨?_, hasOutcome_of_buffered (List.mem_append_right _ inSecond) ethKey (by simp)⟩
      have inAll := List.mem_append_left second (List.mem_append_right buffers.valuations inFirst)
      rcases lptKey with same | ⟨claims, same⟩
      · exact hasOutcome_of_buffered inAll same (by simp)
      · exact hasOutcome_of_buffered inAll same (listed (decide_eq_true claims))
  | SEED => simp at about

end Recording

end ProtocolExplorer.Valuator
