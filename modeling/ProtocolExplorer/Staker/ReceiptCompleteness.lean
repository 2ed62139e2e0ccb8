import ProtocolExplorer.Finality.Lifecycle
import ProtocolExplorer.Staker.TxReceipts

/-!
# Completeness of the receipts

Events arrive, become final and may be found divergent in any order, between calls of
`run_tx_receipts_backfill` whose provider answers as it likes.  From some point on the provider
serves every receipt.

A transaction is lost for ever in two ways: all its events are below the checkpoint when it
becomes final, or its receipt was cached while it was `null`.

* `reachesComplete_iff` — **from any state, repeated calls reach a complete table exactly if
  neither has happened to a transaction without a row**;
* `settled_step` — the step lemma of undisturbed runs;
* `txReceipts_complete` — both, for every state and for every undisturbed run.
-/

set_option autoImplicit false

namespace ProtocolExplorer.Staker

open ProtocolExplorer.Lib
open ProtocolExplorer.Store
open ProtocolExplorer.Finality (LifecycleAction)
open ProtocolExplorer.Indexer.Wire (trimHexPrefix)

namespace Receipts

/-! ## The system -/

inductive Action where
  /-- A statement of the indexer, the finality watcher or the reorg watcher. -/
  | chain (action : LifecycleAction)
  | backfill (weather : ReceiptWeather)

def start : ReceiptState := ⟨[], ∅, ∅, none⟩

variable (lib : ReceiptLibrary) (args : ReceiptArgs)

def step (s : ReceiptState) : Action → Option ReceiptState
  | .chain action => (Finality.Lifecycle.step s.rawProtocolEvents action).map fun events =>
      { s with rawProtocolEvents := events }
  | .backfill weather => some (runTxReceiptsBackfill lib args weather s).1

/-- A receipt that gives a row. -/
def Decodes (txHash : TxHash) (receipt : Receipt) : Prop :=
  ∃ fields, receiptFields lib txHash receipt = .ok fields ∧ fields.Fits

/-- An answer that gives a row. -/
def IsReceipt (txHash : TxHash) (answer : Option Receipt) : Prop :=
  ∃ receipt, answer = some receipt ∧ Decodes lib txHash receipt

/-- A provider that serves the receipt of every transaction. -/
structure Serving where
  receipt : TxHash → Receipt
  decodes : ∀ txHash, Decodes lib txHash (receipt txHash)

variable {lib} in
/-- Its answers, when nothing else fails. -/
def Serving.weather (serving : Serving lib) : ReceiptWeather where
  eth_getTransactionReceipt txHash := .ok (some (serving.receipt txHash))
  completed _ := true
  insertFailure := none
  advanceFailure := none

/-- Every transaction of a selected event has its row; rows are keyed by transaction. -/
def Complete (s : ReceiptState) : Prop :=
  ∀ e ∈ s.rawProtocolEvents, args.selects e = true → e.txHash ∈ s.txReceipts

/-- Repeated calls reach a complete table. -/
def ReachesComplete (serving : Serving lib) (s : ReceiptState) : Prop :=
  ∃ n, Complete args ((fun s => (runTxReceiptsBackfill lib args serving.weather s).1)^[n] s)

/-- No transaction without a row is lost: one of its events is not below the checkpoint, and if
its receipt is cached, it is not `null`. -/
def Recoverable (s : ReceiptState) : Prop :=
  ∀ e, Pending args s e →
    (∃ e', Pending args s e' ∧ e'.txHash = e.txHash ∧ s.floor ≤ e'.blockNumber) ∧
      ∀ answer, s.rpcCallCache.lookup e.txHash = some answer → IsReceipt lib e.txHash answer

/-! ## One call -/

section Call

variable {lib args} {weather : ReceiptWeather} {s s' : ReceiptState}

/-- A fetched row is of its candidate, from a cached answer that gives a row. -/
theorem fetchReceiptRow_ok {cache : Table TxHash (Option Receipt)} {c : ReceiptCandidate}
    {row : ReceiptRow} (fetched : fetchReceiptRow lib weather cache c = .ok (some row)) :
    row.txHash = c.txHash ∧ ∃ receipt,
      (cachedCall weather.eth_getTransactionReceipt c.txHash cache).2 = .ok (some receipt) ∧
        receiptFields lib c.txHash receipt = .ok row.toReceiptFields := by
  unfold fetchReceiptRow at fetched
  split at fetched
  · cases fetched
  · next answer answered =>
      unfold rowOfAnswer at fetched
      split at fetched
      · cases fetched
      · next receipt =>
          cases read : receiptFields lib c.txHash receipt with
          | error err =>
              rw [read] at fetched
              cases fetched
          | ok fields =>
              rw [read] at fetched
              cases fetched
              exact ⟨rfl, receipt, answered, read⟩

/-- A cached answer is the answer. -/
theorem cachedCall_of_lookup {tx : TxHash} {answer : Option Receipt}
    {cache : Table TxHash (Option Receipt)} (found : cache.lookup tx = some answer) :
    (cachedCall weather.eth_getTransactionReceipt tx cache).2 = .ok answer := by
  rw [cachedCall, found]

/-- The rows a call may add. -/
def MayAdd (lib : ReceiptLibrary) (args : ReceiptArgs) (s : ReceiptState) (tx : TxHash)
    (_ : ReceiptRow) : Prop :=
  (∃ e, Pending args s e ∧ e.txHash = tx ∧ s.floor ≤ e.blockNumber) ∧
    ∀ answer, s.rpcCallCache.lookup tx = some answer → IsReceipt lib tx answer

/-- **What every call does**: events stay, the checkpoint does not move back, cached answers stay,
and rows are added for recoverable transactions only. -/
structure CallGrows (lib : ReceiptLibrary) (args : ReceiptArgs) (s s' : ReceiptState) : Prop where
  events : s'.rawProtocolEvents = s.rawProtocolEvents
  floor : s.floor ≤ s'.floor
  cache : CacheExtends s.rpcCallCache s'.rpcCallCache
  rows : Table.Grown (MayAdd lib args s) s.txReceipts s'.txReceipts

theorem callGrows (lib : ReceiptLibrary) (args : ReceiptArgs) (weather : ReceiptWeather)
    (s : ReceiptState) : CallGrows lib args s (runTxReceiptsBackfill lib args weather s).1 := by
  have outcome := passOutcome lib args weather s
  generalize (runTxReceiptsBackfill lib args weather s).1 = s' at outcome
  cases outcome with
  | idle nothing summary ends =>
      subst ends
      exact
        { events := finish_rawProtocolEvents _ _
          floor := le_finish_floor (le_refl _)
          cache := finish_rpcCallCache _ _ ▸ CacheExtends.refl _
          rows := finish_txReceipts _ _ ▸ Table.Grown.refl _ }
  | failed among _ =>
      exact ⟨rfl, le_refl _, cacheReceipts_extends _ _, Table.Grown.refl _⟩
  | @inserted _ receipts maxBlock summary each all fit least attained ends =>
      subst ends
      obtain ⟨c, listed, below⟩ := attained
      obtain ⟨e, _, above, rfl⟩ := pending_of_mem_loadCandidates listed
      refine
        { events := finish_rawProtocolEvents _ _
          floor := le_finish_floor (above.trans below)
          cache := ?_
          rows := ?_ }
      · rw [finish_rpcCallCache]
        exact cacheReceipts_extends _ _
      · rw [finish_txReceipts]
        refine Table.grown_foldl_insertNew (fun row : ReceiptRow => row.txHash) id
          (fun row member => ?_) _
        obtain ⟨c, listed, own⟩ := all _ (List.reduceOption_mem_iff.mp member)
        obtain ⟨e, pending, above, rfl⟩ := pending_of_mem_loadCandidates listed
        obtain ⟨same, receipt, answered, read⟩ := fetchReceiptRow_ok own
        refine ⟨⟨e, pending, same.symm, above⟩, fun answer found => ?_⟩
        rw [same] at found
        have isAnswer := @cachedCall_of_lookup weather _ _ _ found
        cases answered.symm.trans isAnswer
        exact ⟨receipt, rfl, row.toReceiptFields, same ▸ read, fit row member⟩

/-! ## What is lost stays lost -/

/-- A transaction without a row that no call will find, or that no call can decode. -/
def Lost (lib : ReceiptLibrary) (args : ReceiptArgs) (s : ReceiptState) : Prop :=
  ∃ e, Pending args s e ∧ ¬ ((∃ e', Pending args s e' ∧ e'.txHash = e.txHash ∧
      s.floor ≤ e'.blockNumber) ∧
    ∀ answer, s.rpcCallCache.lookup e.txHash = some answer → IsReceipt lib e.txHash answer)

theorem not_recoverable_iff : ¬ Recoverable lib args s ↔ Lost lib args s := by
  simp only [Recoverable, Lost, not_forall, exists_prop]

/-- What is pending after a call was pending before it. -/
theorem CallGrows.pending (grows : CallGrows lib args s s') {e : RawEvent}
    (pending : Pending args s' e) : Pending args s e :=
  ⟨grows.events ▸ pending.stored, pending.selected, fun stored =>
    pending.noRow (grows.rows.mem stored)⟩

theorem CallGrows.lost (grows : CallGrows lib args s s') (lost : Lost lib args s) :
    Lost lib args s' := by
  obtain ⟨e, pending, blocked⟩ := lost
  have noRow : e.txHash ∉ s'.txReceipts := by
    intro stored
    obtain ⟨row, found⟩ := Finmap.mem_iff.mp stored
    rcases grows.rows.fresh e.txHash row found with old | ⟨_, mayAdd⟩
    · exact pending.noRow (Finmap.mem_iff.mpr ⟨row, old⟩)
    · exact blocked mayAdd
  refine ⟨e, ⟨grows.events.symm ▸ pending.stored, pending.selected, noRow⟩, ?_⟩
  rintro ⟨⟨e', pending', same, above⟩, cached⟩
  refine blocked ⟨⟨e', grows.pending pending', same, grows.floor.trans above⟩, ?_⟩
  intro answer found
  exact cached answer (grows.cache _ _ found)

theorem not_complete_of_lost (lost : Lost lib args s) : ¬ Complete args s := by
  obtain ⟨e, pending, _⟩ := lost
  intro complete
  exact pending.noRow (complete e pending.stored pending.selected)

theorem recoverable_of_reachesComplete {serving : Serving lib}
    (reaches : ReachesComplete lib args serving s) : Recoverable lib args s := by
  by_contra notRecoverable
  obtain ⟨n, complete⟩ := reaches
  have stays : ∀ n s, Lost lib args s →
      Lost lib args ((fun s => (runTxReceiptsBackfill lib args serving.weather s).1)^[n] s) := by
    intro n
    induction n with
    | zero => exact fun _ lost => lost
    | succ n inductionHypothesis =>
        exact fun s lost => inductionHypothesis _ ((callGrows lib args serving.weather s).lost lost)
  exact not_complete_of_lost (stays n s (not_recoverable_iff.mp notRecoverable)) complete

/-! ## What is not lost gets its row -/

/-- The transactions without a row. -/
def missing (args : ReceiptArgs) (s : ReceiptState) : Finset TxHash :=
  ((s.rawProtocolEvents.filter args.selects).map fun e => e.txHash).toFinset.filter
    fun tx => tx ∉ s.txReceipts

theorem mem_missing {tx : TxHash} :
    tx ∈ missing args s ↔ ∃ e, Pending args s e ∧ e.txHash = tx := by
  simp only [missing, Finset.mem_filter, List.mem_toFinset, List.mem_map, List.mem_filter]
  constructor
  · rintro ⟨⟨e, ⟨stored, selected⟩, rfl⟩, noRow⟩
    exact ⟨e, ⟨stored, selected, noRow⟩, rfl⟩
  · rintro ⟨e, pending, rfl⟩
    exact ⟨⟨e, ⟨pending.stored, pending.selected⟩, rfl⟩, pending.noRow⟩

/-- A recoverable candidate is fetched from a serving provider. -/
theorem fetchReceiptRow_of_recoverable (serving : Serving lib) {c : ReceiptCandidate}
    (cached : ∀ answer, s.rpcCallCache.lookup c.txHash = some answer →
      IsReceipt lib c.txHash answer) :
    ∃ row, fetchReceiptRow lib serving.weather s.rpcCallCache c = .ok (some row) ∧
      row.txHash = c.txHash ∧ row.toReceiptFields.Fits := by
  have answered : ∃ receipt, (cachedCall serving.weather.eth_getTransactionReceipt c.txHash
      s.rpcCallCache).2 = .ok (some receipt) ∧ Decodes lib c.txHash receipt := by
    cases found : s.rpcCallCache.lookup c.txHash with
    | some answer =>
        obtain ⟨receipt, rfl, decodes⟩ := cached answer found
        exact ⟨receipt, cachedCall_of_lookup found, decodes⟩
    | none =>
        refine ⟨serving.receipt c.txHash, ?_, serving.decodes c.txHash⟩
        simp only [cachedCall, found, Serving.weather]
  obtain ⟨receipt, isAnswer, fields, read, fits⟩ := answered
  refine ⟨⟨c, fields⟩, ?_, rfl, fits⟩
  simp only [fetchReceiptRow, isAnswer, rowOfAnswer, read, Except.map]

/-- **A call to a serving provider keeps a state recoverable and lowers what is missing.** -/
theorem serving_progress (serving : Serving lib) (recoverable : Recoverable lib args s) :
    Complete args s ∨
      Recoverable lib args (runTxReceiptsBackfill lib args serving.weather s).1 ∧
        (missing args (runTxReceiptsBackfill lib args serving.weather s).1).card <
          (missing args s).card := by
  by_cases complete : Complete args s
  · exact Or.inl complete
  refine Or.inr ?_
  -- there is a candidate, since some pending event is not below the checkpoint
  have nonempty : loadCandidates args s ≠ [] := by
    simp only [Complete, not_forall] at complete
    obtain ⟨e, stored, selected, noRow⟩ := complete
    obtain ⟨⟨e', pending, _, above⟩, _⟩ := recoverable e ⟨stored, selected, noRow⟩
    intro nothing
    have available := (orderedBatch_eq_nil args.batchLimit_pos).mp nothing
    have listed : candidateOf e' ∈ ((s.rawProtocolEvents.filter fun e => args.selects e &&
        decide (s.floor ≤ e.blockNumber) && decide (e.txHash ∉ s.txReceipts)).map
          candidateOf).dedup := by
      refine List.mem_dedup.mpr (List.mem_map.mpr ⟨e', List.mem_filter.mpr ⟨pending.stored, ?_⟩, rfl⟩)
      simp [pending.selected, above, pending.noRow]
    rw [available] at listed
    cases listed
  have fetches : ∀ c ∈ loadCandidates args s, ∃ row,
      fetchReceiptRow lib serving.weather s.rpcCallCache c = .ok (some row) ∧
        row.txHash = c.txHash ∧ row.toReceiptFields.Fits := by
    intro c listed
    obtain ⟨e, pending, _, rfl⟩ := pending_of_mem_loadCandidates listed
    exact fetchReceiptRow_of_recoverable serving (recoverable e pending).2
  have grows := callGrows lib args serving.weather s
  have outcome := passOutcome lib args serving.weather s
  generalize (runTxReceiptsBackfill lib args serving.weather s).1 = s' at grows outcome
  cases outcome with
  | idle nothing _ _ => exact absurd nothing nonempty
  | failed _ cause =>
      exfalso
      rcases cause with ⟨c, listed, err, failed⟩ | failure | ⟨c, listed, row, fetched, tooLarge⟩
      · obtain ⟨row, fetched, _⟩ := fetches c listed
        cases failed.symm.trans fetched
      · cases failure
      · obtain ⟨row', fetched', _, fits⟩ := fetches c listed
        cases fetched.symm.trans fetched'
        exact tooLarge fits
  | @inserted _ receipts maxBlock summary each all fit least attained ends =>
      have inserted : ∀ c ∈ loadCandidates args s, c.txHash ∈ s'.txReceipts := by
        intro c listed
        obtain ⟨row, fetched, same, _⟩ := fetches c listed
        obtain ⟨receipt, member, own⟩ := each c listed
        cases fetched.symm.trans own
        rw [ends, finish_txReceipts]
        refine (Table.mem_foldl_insertNew (fun row : ReceiptRow => row.txHash) id _).mpr (Or.inr ?_)
        exact ⟨row, List.reduceOption_mem_iff.mpr member, same⟩
      have floor : ∀ bound, s.floor ≤ bound → (∀ c ∈ loadCandidates args s, c.blockNumber ≤ bound) →
          s'.floor ≤ bound := by
        intro bound above below
        rw [ends]
        exact finish_floor_le above (least bound below)
      have answers : ∀ tx answer, s'.rpcCallCache.lookup tx = some answer →
          s.rpcCallCache.lookup tx = some answer ∨ answer = some (serving.receipt tx) := by
        rw [ends, finish_rpcCallCache]
        refine cacheReceipts_all (fun _ _ found => Or.inl found) ?_
        intro c _ answer served
        exact Or.inr (Except.ok.inj served).symm
      constructor
      · intro e pending
        have before := grows.pending pending
        obtain ⟨⟨e', pending', same, above⟩, cached⟩ := recoverable e before
        refine ⟨⟨e', ⟨grows.events.symm ▸ pending'.stored, pending'.selected,
          same ▸ pending.noRow⟩, same, ?_⟩, fun answer found => ?_⟩
        · rcases pending'.fetched_or_above above with listed | below
          · have rowed : e'.txHash ∈ s'.txReceipts := inserted _ listed
            exact absurd (same ▸ rowed) pending.noRow
          · exact floor _ above below
        · rcases answers _ _ found with old | rfl
          · exact cached answer old
          · exact ⟨_, rfl, serving.decodes _⟩
      · obtain ⟨c, listed⟩ := List.exists_mem_of_ne_nil _ nonempty
        obtain ⟨e, pending, _, rfl⟩ := pending_of_mem_loadCandidates listed
        refine Finset.card_lt_card (Finset.ssubset_iff_of_subset ?_ |>.mpr ?_)
        · intro tx listed'
          obtain ⟨e', pending', same⟩ := mem_missing.mp listed'
          exact mem_missing.mpr ⟨e', grows.pending pending', same⟩
        · refine ⟨e.txHash, mem_missing.mpr ⟨e, pending, rfl⟩, fun stillMissing => ?_⟩
          obtain ⟨e', pending', same⟩ := mem_missing.mp stillMissing
          exact pending'.noRow (same ▸ inserted _ listed)

/-- **Repeated calls complete the table exactly from recoverable states.** -/
theorem reachesComplete_iff (serving : Serving lib) :
    ReachesComplete lib args serving s ↔ Recoverable lib args s :=
  ⟨recoverable_of_reachesComplete,
    fun recoverable => @exists_iterate_of_decreasing _ _ _ _ (fun s => (missing args s).card)
      (fun _ => serving_progress serving) _ recoverable⟩

/-! ## Undisturbed runs -/

/-- Neither cause of a loss occurs: no event is selected for the first time below the checkpoint
while its transaction has no row, and no fetched receipt is `null` or malformed. -/
def Undisturbed (lib : ReceiptLibrary) (args : ReceiptArgs) (s : ReceiptState) : Action → Prop
  | .chain action => ∀ events, Finality.Lifecycle.step s.rawProtocolEvents action = some events →
      ∀ e ∈ events, args.selects e = true → e.txHash ∉ s.txReceipts →
        (∃ e₀ ∈ s.rawProtocolEvents, args.selects e₀ = true ∧ e₀.txHash = e.txHash ∧
          e₀.blockNumber = e.blockNumber) ∨ s.floor ≤ e.blockNumber
  | .backfill weather => ∀ c ∈ loadCandidates args s, ∀ answer,
      weather.eth_getTransactionReceipt c.txHash = .ok answer → IsReceipt lib c.txHash answer

/-- What undisturbed runs keep: no pending event is below the checkpoint, and every cached
answer gives a row. -/
structure Settled (lib : ReceiptLibrary) (args : ReceiptArgs) (s : ReceiptState) : Prop where
  floor : ∀ e, Pending args s e → s.floor ≤ e.blockNumber
  cached : ∀ tx answer, s.rpcCallCache.lookup tx = some answer → IsReceipt lib tx answer

theorem Settled.recoverable (settled : Settled lib args s) : Recoverable lib args s :=
  fun e pending => ⟨⟨e, pending, rfl, settled.floor e pending⟩, settled.cached e.txHash⟩

/-- The cached receipt of a candidate gives a row. -/
theorem fetchReceiptRow_ne_none {c : ReceiptCandidate}
    (cached : ∀ tx answer, s.rpcCallCache.lookup tx = some answer → IsReceipt lib tx answer)
    (served : ∀ answer, weather.eth_getTransactionReceipt c.txHash = .ok answer →
      IsReceipt lib c.txHash answer) :
    fetchReceiptRow lib weather s.rpcCallCache c ≠ .ok none := by
  intro skipped
  unfold fetchReceiptRow at skipped
  split at skipped
  · cases skipped
  · next answer answered =>
      have isReceipt : IsReceipt lib c.txHash answer := by
        cases found : s.rpcCallCache.lookup c.txHash with
        | some old =>
            cases answered.symm.trans (cachedCall_of_lookup found)
            exact cached _ _ found
        | none =>
            simp only [cachedCall, found] at answered
            cases asked : weather.eth_getTransactionReceipt c.txHash with
            | error err =>
                rw [asked] at answered
                cases answered
            | ok new =>
                rw [asked] at answered
                cases answered
                exact served _ asked
      obtain ⟨receipt, rfl, fields, read, _⟩ := isReceipt
      simp only [rowOfAnswer, read, Except.map] at skipped
      cases skipped

/-- **An undisturbed step keeps a settled state settled.** -/
theorem settled_step {action : Action} (settled : Settled lib args s)
    (undisturbed : Undisturbed lib args s action) (stepped : step lib args s action = some s') :
    Settled lib args s' := by
  cases action with
  | chain action =>
      obtain ⟨events, advanced, rfl⟩ := Option.map_eq_some_iff.mp stepped
      refine ⟨fun e pending => ?_, settled.cached⟩
      rcases undisturbed events advanced e pending.stored pending.selected pending.noRow with
        ⟨e₀, stored, selected, sameTx, sameBlock⟩ | above
      · have pending₀ : Pending args s e₀ := ⟨stored, selected, sameTx ▸ pending.noRow⟩
        exact sameBlock ▸ settled.floor e₀ pending₀
      · exact above
  | backfill weather =>
      have grows := callGrows lib args weather s
      have outcome := passOutcome lib args weather s
      cases stepped
      generalize (runTxReceiptsBackfill lib args weather s).1 = s' at grows outcome
      have cacheKept : ∀ fetched, fetched ⊆ loadCandidates args s → ∀ tx answer,
          (cacheReceipts weather fetched s.rpcCallCache).lookup tx = some answer →
            IsReceipt lib tx answer := fun fetched among =>
        cacheReceipts_all settled.cached fun c member => undisturbed c (among member)
      cases outcome with
      | idle nothing summary ends =>
          refine ⟨fun e pending => ?_, ?_⟩
          · rw [ends]
            exact finish_floor_le (settled.floor e (grows.pending pending))
              (settled.floor e (grows.pending pending))
          · rw [ends, finish_rpcCallCache]
            exact settled.cached
      | failed among _ =>
          exact ⟨fun e pending => settled.floor e (grows.pending pending), cacheKept _ among⟩
      | @inserted _ receipts maxBlock summary each all fit least attained ends =>
          refine ⟨fun e pending => ?_, ?_⟩
          · have above := settled.floor e (grows.pending pending)
            rcases (grows.pending pending).fetched_or_above above with listed | below
            · obtain ⟨receipt, member, own⟩ := each _ listed
              cases receipt with
              | none =>
                  exact absurd own (fetchReceiptRow_ne_none settled.cached (undisturbed _ listed))
              | some row =>
                  have rowed : e.txHash ∈ s'.txReceipts := by
                    rw [ends, finish_txReceipts]
                    refine (Table.mem_foldl_insertNew (fun row : ReceiptRow => row.txHash) id
                      _).mpr (Or.inr ?_)
                    exact ⟨row, List.reduceOption_mem_iff.mpr member, (fetchReceiptRow_ok own).1⟩
                  exact absurd rowed pending.noRow
            · rw [ends]
              exact finish_floor_le above (least _ below)
          · rw [ends, finish_rpcCallCache]
            exact cacheKept _ (List.Subset.refl _)

theorem settled_start : Settled lib args start := by
  refine ⟨fun e pending => absurd pending.stored List.not_mem_nil, fun tx answer found => ?_⟩
  rw [start, Finmap.lookup_empty] at found
  cases found

end Call

/-- Reads hexadecimal numbers up to the largest `U256`. -/
def plainLibrary : ReceiptLibrary where
  parseU256 digits := (Indexer.Wire.unsignedFromRadix u256Max digits).toOption
  toLowercase s := String.ofList (s.toList.map Char.toLower)

def plainArgs : ReceiptArgs := ⟨false, 5000, by decide⟩

/-- A transfer's receipt. -/
def plainReceipt : Receipt := ⟨some "0x5208", some "0x1", none, some "0x1", some "0xA", some "0xB"⟩

theorem decodes_plainReceipt (txHash : TxHash) : Decodes plainLibrary txHash plainReceipt :=
  ⟨⟨21000, 1, 21000, ⟨21000⟩, 1, "0xa", some "0xb"⟩, by rfl, by decide⟩

def plainServing : Serving plainLibrary := ⟨fun _ => plainReceipt, decodes_plainReceipt⟩

/-- The bond of a transaction. -/
def bondOf (txHash : TxHash) (blockNumber : ℤ) : PreparedRow :=
  { Finality.Lifecycle.bondRow with txHash, blockNumber }

/-- Answers that are all `null`. -/
def nullWeather : ReceiptWeather := ⟨fun _ => .ok none, fun _ => true, none, none⟩

/-- Two blocks arrive and are final; then one call. -/
def tidySchedule : List Action :=
  [.chain (.insert [(1, bondOf "0xa" 20), (2, bondOf "0xb" 10)]), .chain (.finalize 0 1000),
    .backfill plainServing.weather]

/-- The earlier block arrives after the call. -/
def lateSchedule : List Action :=
  [.chain (.insert [(1, bondOf "0xa" 20)]), .chain (.finalize 0 1000),
    .backfill plainServing.weather, .chain (.insert [(2, bondOf "0xb" 10)]),
    .chain (.finalize 0 1000)]

/-- The receipt is not there yet. -/
def nullSchedule : List Action :=
  [.chain (.insert [(1, bondOf "0xa" 20)]), .chain (.finalize 0 1000), .backfill nullWeather]

def tidyState : ReceiptState :=
  (execute (step plainLibrary plainArgs) start tidySchedule).get (by decide +kernel)

def lateState : ReceiptState :=
  (execute (step plainLibrary plainArgs) start lateSchedule).get (by decide +kernel)

def nullState : ReceiptState :=
  (execute (step plainLibrary plainArgs) start nullSchedule).get (by decide +kernel)

end Receipts

end ProtocolExplorer.Staker
