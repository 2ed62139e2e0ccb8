import ProtocolExplorer.Indexer.Decode
import ProtocolExplorer.Lib.Failures
import ProtocolExplorer.Lib.Reconciliation
import ProtocolExplorer.Lib.Utf8
import ProtocolExplorer.Store.RawEvent

/-!
# Cross-check of the seed

`run_cross_check` reads the logs of the indexer and those of the SQLite seed into two maps and
counts how the maps differ.  The seed is data from elsewhere: a transaction id may be missing, a
payload may not be JSON and a block hash may be any string.

* `foldlM_compareEntry`, `foldl_missEntry` — what the two loops count;
* `compareMaps_partitions` — the counters partition the keys of both maps;
* `crossCheck_exact_iff` — **when the check ends with counters that partition both maps**;
* `shortHash_panics` — a log on which it panics.
-/

set_option autoImplicit false

namespace ProtocolExplorer.Seed

open ProtocolExplorer.Lib
open ProtocolExplorer.Store (RawEvent)
open ProtocolExplorer.Indexer.Wire (ParseIntError accumulate signedFromRadix trimHexPrefix)

/-! ## The stores -/

/-- What is read of a payload; a field that is missing is not text. -/
structure SeedPayload where
  logIndex : Option String
  blockNumber : Option String
  blockHash : Option String
  deriving DecidableEq

/-- A row of the `events` table; a payload that is not JSON is `none`. -/
structure SeedEvent where
  transactionId : Option String
  blockNumber : Option ℤ
  payload : Option SeedPayload

/-- A row of the query of the seed. -/
structure SeedRow where
  txHash : Option String
  payload : SeedPayload
  deriving DecidableEq

/-- `to_lowercase` and the `lower` of SQLite. -/
structure TextLibrary where
  toLowercase : String → String
  lower : String → String

/-- A transaction and the index of its log. -/
abbrev Key := String × ℤ

structure LogValue where
  blockNumber : ℤ
  blockHash : String
  deriving DecidableEq

/-! ## The maps -/

/-- `i32::from_str_radix(_, 16)`. -/
def i32FromStrRadix : List Char → Except ParseIntError ℤ
  | [] => .error .empty
  | ['+'] => .error .invalidDigit
  | ['-'] => .error .invalidDigit
  | '+' :: digits => (accumulate (2 ^ 31 - 1) .posOverflow digits 0).map Int.ofNat
  | '-' :: digits => (accumulate (2 ^ 31) .negOverflow digits 0).map fun n => -(n : ℤ)
  | digits => (accumulate (2 ^ 31 - 1) .posOverflow digits 0).map Int.ofNat

/-- The window of the indexer: its first and last block. -/
def windowOf (events : List RawEvent) : Option (ℤ × ℤ) := do
  let minBlock ← (events.map (·.blockNumber)).min?
  let maxBlock ← (events.map (·.blockNumber)).max?
  return (minBlock, maxBlock)

section Maps

variable (lib : TextLibrary)

/-- What is inserted into `indexer_map`, in turn. -/
def indexerEntries (window : ℤ × ℤ) (events : List RawEvent) : List (Key × LogValue) :=
  (events.filter fun e => decide (window.1 ≤ e.blockNumber) &&
      decide (e.blockNumber ≤ window.2) && e.isCanonical).map fun e =>
    ((lib.toLowercase e.txHash, (e.logIndex : ℤ)), ⟨e.blockNumber, lib.toLowercase e.blockHash⟩)

/-- `indexer_map`. -/
def indexerMap (window : ℤ × ℤ) (events : List RawEvent) : Table Key LogValue :=
  Table.insertAll (indexerEntries lib window events)

/-- A row of the query, unless the payload is not JSON. -/
def seedRowOf (e : SeedEvent) : Option SeedRow :=
  e.payload.map fun payload => ⟨e.transactionId.map lib.lower, payload⟩

/-- The query of the seed; a payload of the window that is not JSON is an error. -/
def selectSeedRows (window : ℤ × ℤ) (seed : List SeedEvent) : Option (List SeedRow) :=
  let selected := seed.filter fun e => e.blockNumber.any fun block =>
    decide (window.1 ≤ block) && decide (block ≤ window.2)
  (selected.mapM (seedRowOf lib)).map List.dedup

/-- The entry of a row, unless it is skipped. -/
def entryOf (tx : String) (payload : SeedPayload) : Option (Key × LogValue) := do
  let logIndexHex ← payload.logIndex
  let blockNumberHex ← payload.blockNumber
  let blockHash ← payload.blockHash
  let logIndex ← (i32FromStrRadix (trimHexPrefix logIndexHex.toList)).toOption
  let blockNumber ← (signedFromRadix (trimHexPrefix blockNumberHex.toList)).toOption
  return ((lib.toLowercase tx, logIndex), ⟨blockNumber, lib.toLowercase blockHash⟩)

/-- What is inserted into `seed_map`, in turn. -/
def seedEntries (rows : List SeedRow) : List (Key × LogValue) :=
  rows.filterMap fun row => row.txHash.bind fun tx => entryOf lib tx row.payload

/-- `seed_map`; `r.get(0)` panics on a missing transaction id. -/
def seedMap (rows : List SeedRow) : Option (Table Key LogValue) :=
  if rows.all (·.txHash.isSome) then some (Table.insertAll (seedEntries lib rows)) else none

end Maps

/-! ## The report -/

structure ReportSamples where
  missingInIndexer : List String
  missingInSeed : List String
  blockNumberMismatches : List String
  blockHashMismatches : List String

structure CrossCheckReport where
  indexerEventCount : ℕ
  seedEventCountInWindow : ℕ
  matched : ℕ
  missingInIndexer : ℕ
  missingInSeed : ℕ
  blockNumberMismatches : ℕ
  blockHashMismatches : ℕ
  samples : ReportSamples

/-- `CrossCheckReport::default()`, with the sizes of the maps. -/
def emptyReport (indexerEventCount seedEventCountInWindow : ℕ) : CrossCheckReport :=
  ⟨indexerEventCount, seedEventCountInWindow, 0, 0, 0, 0, 0, ⟨[], [], [], []⟩⟩

/-- `SAMPLE_LIMIT`. -/
def sampleLimit : ℕ := 10

/-- `push_sample`. -/
def pushSample (target : List String) (s : String) : List String :=
  if target.length < sampleLimit then target ++ [s] else target

def labelOf (key : Key) : String := key.1 ++ "#" ++ toString key.2

/-- `&hash[..10]`, or `none` when the slice panics. -/
def hashSlice (hash : String) : Option String := (sliceTo 10 hash.toList).map String.ofList

/-- The comparison of the block numbers. -/
def countNumber (label : String) (seed idx : LogValue) (report : CrossCheckReport) :
    CrossCheckReport :=
  if seed.blockNumber = idx.blockNumber then report
  else
    { report with
      blockNumberMismatches := report.blockNumberMismatches + 1
      samples := { report.samples with
        blockNumberMismatches := pushSample report.samples.blockNumberMismatches
          (label ++ ": seed_block=" ++ toString seed.blockNumber ++ " indexer_block=" ++
            toString idx.blockNumber) } }

/-- The comparison of the block hashes; `none` when a slice panics. -/
def countHash (label : String) (seed idx : LogValue) (report : CrossCheckReport) :
    Option CrossCheckReport :=
  if seed.blockHash = idx.blockHash then some report
  else do
    let seedHash ← hashSlice seed.blockHash
    let indexerHash ← hashSlice idx.blockHash
    return { report with
      blockHashMismatches := report.blockHashMismatches + 1
      samples := { report.samples with
        blockHashMismatches := pushSample report.samples.blockHashMismatches
          (label ++ ": seed_hash=" ++ seedHash ++ " indexer_hash=" ++ indexerHash) } }

/-- The body of the loop over the indexer's map. -/
def compareEntry (seed : Table Key LogValue) (report : CrossCheckReport) (entry : Key × LogValue) :
    Option CrossCheckReport :=
  match seed.lookup entry.1 with
  | some seedValue => do
      let report ← countHash (labelOf entry.1) seedValue entry.2
        (countNumber (labelOf entry.1) seedValue entry.2 report)
      return if seedValue = entry.2 then { report with matched := report.matched + 1 } else report
  | none => some { report with
      missingInSeed := report.missingInSeed + 1
      samples := { report.samples with
        missingInSeed := pushSample report.samples.missingInSeed (labelOf entry.1) } }

/-- The body of the loop over the seed's map. -/
def missEntry (indexer : Table Key LogValue) (report : CrossCheckReport)
    (entry : Key × LogValue) : CrossCheckReport :=
  if entry.1 ∈ indexer then report
  else
    { report with
      missingInIndexer := report.missingInIndexer + 1
      samples := { report.samples with
        missingInIndexer := pushSample report.samples.missingInIndexer (labelOf entry.1) } }

/-- The order in which a hash map is iterated. -/
structure MapOrder where
  entries : Table Key LogValue → List (Key × LogValue)
  listing : ∀ map, Table.Listing (entries map) map

/-- How a check ends. -/
inductive Outcome where
  | failed
  | panicked
  | report (report : CrossCheckReport)

/-- The two loops; `none` when a slice panics. -/
def compareMaps (order : MapOrder) (indexer seed : Table Key LogValue) :
    Option CrossCheckReport := do
  let report ← (order.entries indexer).foldlM (compareEntry seed)
    (emptyReport indexer.keys.card seed.keys.card)
  return (order.entries seed).foldl (missEntry indexer) report

/-- The check, once the rows of both stores are read. -/
def checkRows (lib : TextLibrary) (order : MapOrder) (window : ℤ × ℤ) (events : List RawEvent)
    (rows : List SeedRow) : Outcome :=
  match seedMap lib rows with
  | none => .panicked
  | some seed =>
      match compareMaps order (indexerMap lib window events) seed with
      | none => .panicked
      | some report => .report report

/-- `run_cross_check`. -/
def runCrossCheck (lib : TextLibrary) (order : MapOrder) (events : List RawEvent)
    (seed : List SeedEvent) : Outcome :=
  match windowOf events with
  | none => .report (emptyReport 0 0)
  | some window =>
      match selectSeedRows lib window seed with
      | none => .failed
      | some rows => checkRows lib order window events rows

/-! ## What the loops count -/

section Counters

/-- What a part of the check adds to the counters. -/
structure Adds (before after : CrossCheckReport) (matched missingInSeed missingInIndexer : ℕ) :
    Prop where
  indexerEventCount : after.indexerEventCount = before.indexerEventCount
  seedEventCountInWindow : after.seedEventCountInWindow = before.seedEventCountInWindow
  matched : after.matched = before.matched + matched
  missingInSeed : after.missingInSeed = before.missingInSeed + missingInSeed
  missingInIndexer : after.missingInIndexer = before.missingInIndexer + missingInIndexer

theorem Adds.refl (report : CrossCheckReport) : Adds report report 0 0 0 :=
  ⟨rfl, rfl, rfl, rfl, rfl⟩

theorem Adds.trans {first second third : CrossCheckReport} {a b c a' b' c' : ℕ}
    (one : Adds first second a b c) (two : Adds second third a' b' c') :
    Adds first third (a + a') (b + b') (c + c') where
  indexerEventCount := two.indexerEventCount.trans one.indexerEventCount
  seedEventCountInWindow := two.seedEventCountInWindow.trans one.seedEventCountInWindow
  matched := by rw [two.matched, one.matched, Nat.add_assoc]
  missingInSeed := by rw [two.missingInSeed, one.missingInSeed, Nat.add_assoc]
  missingInIndexer := by rw [two.missingInIndexer, one.missingInIndexer, Nat.add_assoc]

theorem adds_matched (report : CrossCheckReport) :
    Adds report { report with matched := report.matched + 1 } 1 0 0 :=
  ⟨rfl, rfl, rfl, rfl, rfl⟩

/-- A hash whose first ten bytes end between characters. -/
def Sliceable (hash : String) : Prop :=
  10 ≤ (utf8 hash.toList).length ∧ isBoundary ((utf8 hash.toList).drop 10) = true

theorem hashSlice_isSome {hash : String} : (hashSlice hash).isSome = true ↔ Sliceable hash := by
  rw [hashSlice, Option.isSome_map, sliceTo, Sliceable]
  split_ifs with fits <;> simp [fits]

variable {seed indexer : Table Key LogValue} {label : String} {s i : LogValue}
  {before after : CrossCheckReport}

theorem countNumber_adds (label : String) (s i : LogValue) (before : CrossCheckReport) :
    Adds before (countNumber label s i before) 0 0 0 := by
  rw [countNumber]
  split_ifs <;> exact ⟨rfl, rfl, rfl, rfl, rfl⟩

theorem countHash_adds (counted : countHash label s i before = some after) :
    Adds before after 0 0 0 := by
  unfold countHash at counted
  split_ifs at counted with same
  · cases counted
    exact Adds.refl before
  · obtain ⟨_, _, _, _, rfl⟩ := by simpa [Option.bind_eq_some_iff] using counted
    exact ⟨rfl, rfl, rfl, rfl, rfl⟩

/-- The comparison of two hashes ends if both can be sliced, or if it makes no slice. -/
theorem countHash_isSome (label : String) (s i : LogValue) (before : CrossCheckReport) :
    (countHash label s i before).isSome = true ↔
    (s.blockHash ≠ i.blockHash → Sliceable s.blockHash ∧ Sliceable i.blockHash) := by
  rw [countHash]
  split_ifs with same
  · simp [same]
  · rw [← hashSlice_isSome, ← hashSlice_isSome]
    cases hashSlice s.blockHash <;> cases hashSlice i.blockHash <;> simp [same]

variable {entry : Key × LogValue}

theorem compareEntry_adds (compared : compareEntry seed before entry = some after) :
    Adds before after (if seed.lookup entry.1 = some entry.2 then 1 else 0)
      (if entry.1 ∉ seed then 1 else 0) 0 := by
  unfold compareEntry at compared
  cases found : seed.lookup entry.1 with
  | none =>
      rw [found] at compared
      cases compared
      have missing : entry.1 ∉ seed := Finmap.lookup_eq_none.mp found
      rw [if_neg (by simp), if_pos missing]
      exact ⟨rfl, rfl, rfl, rfl, rfl⟩
  | some value =>
      have present : ¬ entry.1 ∉ seed := not_not.mpr (Finmap.mem_of_lookup_eq_some found)
      simp only [found, bind, Option.bind_eq_some_iff] at compared
      obtain ⟨counted, hash, ended⟩ := compared
      have parts := (countNumber_adds _ value entry.2 before).trans (countHash_adds hash)
      rw [if_neg present]
      cases ended
      by_cases same : value = entry.2
      · simp only [same, if_true]
        exact parts.trans (adds_matched counted)
      · simp only [if_neg same, Option.some.injEq]
        exact parts

theorem compareEntry_isSome (seed : Table Key LogValue) (before : CrossCheckReport)
    (entry : Key × LogValue) : (compareEntry seed before entry).isSome = true ↔
      ∀ value, seed.lookup entry.1 = some value → value.blockHash ≠ entry.2.blockHash →
        Sliceable value.blockHash ∧ Sliceable entry.2.blockHash := by
  unfold compareEntry
  cases seed.lookup entry.1 with
  | none => simp
  | some value =>
      have slices := countHash_isSome (labelOf entry.1) value entry.2
        (countNumber (labelOf entry.1) value entry.2 before)
      simp only [Option.some.injEq, forall_eq']
      rw [← slices]
      cases countHash (labelOf entry.1) value entry.2
        (countNumber (labelOf entry.1) value entry.2 before) <;> simp

/-- What the loop over the indexer's map counts. -/
theorem foldlM_compareEntry {entries : List (Key × LogValue)}
    (compared : entries.foldlM (compareEntry seed) before = some after) :
    Adds before after
      (entries.countP fun entry => decide (seed.lookup entry.1 = some entry.2))
      (entries.countP fun entry => decide (entry.1 ∉ seed)) 0 := by
  induction entries generalizing before with
  | nil =>
      cases compared
      exact Adds.refl _
  | cons entry rest inductionHypothesis =>
      rw [List.foldlM_cons] at compared
      obtain ⟨middle, one, others⟩ := Option.bind_eq_some_iff.mp compared
      have both := (compareEntry_adds one).trans (inductionHypothesis others)
      rw [List.countP_cons, List.countP_cons, Nat.add_comm, Nat.add_comm (List.countP _ rest)]
      simpa only [decide_eq_true_eq] using both

theorem missEntry_adds (indexer : Table Key LogValue) (before : CrossCheckReport)
    (entry : Key × LogValue) :
    Adds before (missEntry indexer before entry) 0 0 (if entry.1 ∉ indexer then 1 else 0) := by
  rw [missEntry]
  by_cases present : entry.1 ∈ indexer
  · rw [if_pos present, if_neg (not_not.mpr present)]
    exact Adds.refl before
  · rw [if_neg present, if_pos present]
    exact ⟨rfl, rfl, rfl, rfl, rfl⟩

/-- What the loop over the seed's map counts. -/
theorem foldl_missEntry (indexer : Table Key LogValue) (entries : List (Key × LogValue))
    (before : CrossCheckReport) :
    Adds before (entries.foldl (missEntry indexer) before) 0 0
      (entries.countP fun entry => decide (entry.1 ∉ indexer)) := by
  induction entries generalizing before with
  | nil => exact Adds.refl before
  | cons entry rest inductionHypothesis =>
      have both := (missEntry_adds indexer before entry).trans (inductionHypothesis _)
      rw [List.foldl_cons, List.countP_cons, Nat.add_comm]
      simpa only [decide_eq_true_eq] using both

end Counters

/-! ## The partition of the keys -/

section Partition

/-- The counters of a report partition the keys of both maps. -/
structure Partitions (indexer seed : Table Key LogValue) (report : CrossCheckReport) : Prop where
  indexerEventCount : report.indexerEventCount = indexer.keys.card
  seedEventCountInWindow : report.seedEventCountInWindow = seed.keys.card
  ofIndexer : report.indexerEventCount =
    report.matched + report.missingInSeed + (Table.differing indexer seed).card
  ofSeed : report.seedEventCountInWindow =
    report.matched + report.missingInIndexer + (Table.differing indexer seed).card

/-- The keys with two hashes have hashes that can be sliced. -/
def SlicesFit (indexer seed : Key → Option LogValue) : Prop :=
  ∀ key idx value, indexer key = some idx → seed key = some value →
    value.blockHash ≠ idx.blockHash → Sliceable value.blockHash ∧ Sliceable idx.blockHash

variable {order : MapOrder} {indexer seed : Table Key LogValue} {report : CrossCheckReport}

/-- Each counter is the number of the keys it is about. -/
theorem compareMaps_adds (compared : compareMaps order indexer seed = some report) :
    Adds (emptyReport indexer.keys.card seed.keys.card) report
      (Table.agreeing indexer seed).card (indexer.keys \ seed.keys).card
      (seed.keys \ indexer.keys).card := by
  obtain ⟨middle, first, ended⟩ := Option.bind_eq_some_iff.mp compared
  cases ended
  have both := (foldlM_compareEntry first).trans
    (foldl_missEntry indexer (order.entries seed) middle)
  rwa [(order.listing indexer).countP_agreeing, (order.listing indexer).countP_missing,
    (order.listing seed).countP_missing, Nat.add_zero, Nat.add_zero, Nat.zero_add] at both

theorem compareMaps_partitions (compared : compareMaps order indexer seed = some report) :
    Partitions indexer seed report := by
  have counters := compareMaps_adds compared
  have matched : report.matched = (Table.agreeing indexer seed).card := by
    rw [counters.matched, emptyReport, Nat.zero_add]
  have missingInSeed : report.missingInSeed = (indexer.keys \ seed.keys).card := by
    rw [counters.missingInSeed, emptyReport, Nat.zero_add]
  have missingInIndexer : report.missingInIndexer = (seed.keys \ indexer.keys).card := by
    rw [counters.missingInIndexer, emptyReport, Nat.zero_add]
  refine ⟨counters.indexerEventCount, counters.seedEventCountInWindow, ?_, ?_⟩
  · rw [matched, missingInSeed, ← Table.card_keys_eq]
    exact counters.indexerEventCount
  · rw [matched, missingInIndexer, Table.agreeing_comm, Table.differing_comm,
      ← Table.card_keys_eq]
    exact counters.seedEventCountInWindow

/-- The comparison ends if every slice it may make is one. -/
theorem compareMaps_isSome : (compareMaps order indexer seed).isSome = true ↔
    SlicesFit (fun key => indexer.lookup key) (fun key => seed.lookup key) := by
  have loop := foldlM_isSome (compareEntry_isSome seed) (order.entries indexer)
    (emptyReport indexer.keys.card seed.keys.card)
  have whole : (compareMaps order indexer seed).isSome = ((order.entries indexer).foldlM
      (compareEntry seed) (emptyReport indexer.keys.card seed.keys.card)).isSome := by
    rw [compareMaps]
    cases (order.entries indexer).foldlM (compareEntry seed)
      (emptyReport indexer.keys.card seed.keys.card) <;> rfl
  rw [whole, loop]
  constructor
  · exact fun each key idx value here => each (key, idx)
      (((order.listing indexer).mem_iff key idx).mpr here) value
  · rintro fit ⟨key, idx⟩ member value
    exact fit key idx value (((order.listing indexer).mem_iff key idx).mp member)

end Partition

/-! ## The exactness of the check -/

section Exactness

variable (lib : TextLibrary)

/-- The map of the indexer's logs. -/
def indexerSide (events : List RawEvent) : Table Key LogValue :=
  (windowOf events).elim ∅ fun window => indexerMap lib window events

/-- The map of the seed's logs. -/
def seedSide (events : List RawEvent) (seed : List SeedEvent) : Table Key LogValue :=
  (windowOf events).elim ∅ fun window =>
    ((selectSeedRows lib window seed).bind (seedMap lib)).getD ∅

/-- The check does not panic, and its counters partition the keys of both sides. -/
def Exact (order : MapOrder) (events : List RawEvent) (seed : List SeedEvent) : Prop :=
  runCrossCheck lib order events seed ≠ .panicked ∧
    ∀ report, runCrossCheck lib order events seed = .report report →
      Partitions (indexerSide lib events) (seedSide lib events seed) report

/-- Every row of the seed has a transaction id, and the last rows of a log on both sides have one
hash, or hashes that can be sliced. -/
def Readable (window : ℤ × ℤ) (events : List RawEvent) (rows : List SeedRow) : Prop :=
  (∀ row ∈ rows, row.txHash.isSome = true) ∧
    SlicesFit (Table.lastRow (indexerEntries lib window events))
      (Table.lastRow (seedEntries lib rows))

variable {lib} {window : ℤ × ℤ} {events : List RawEvent} {rows : List SeedRow}

theorem seedMap_eq_some {map : Table Key LogValue} : seedMap lib rows = some map ↔
    (∀ row ∈ rows, row.txHash.isSome = true) ∧ Table.insertAll (seedEntries lib rows) = map := by
  rw [seedMap]
  split_ifs with all
  · simpa using fun _ => List.all_eq_true.mp all
  · simpa using fun each => absurd (List.all_eq_true.mpr each) all

/-- The comparison of the two maps ends if the rows are readable. -/
theorem compareMaps_of_rows (order : MapOrder)
    (complete : ∀ row ∈ rows, row.txHash.isSome = true) :
    (compareMaps order (indexerMap lib window events)
      (Table.insertAll (seedEntries lib rows))).isSome = true ↔
        Readable lib window events rows := by
  rw [compareMaps_isSome, Readable, and_iff_right complete]
  simp only [indexerMap, Table.lookup_insertAll]

/-- Readable rows are counted, and others end in a panic. -/
theorem checkRows_cases (lib : TextLibrary) (order : MapOrder) (window : ℤ × ℤ)
    (events : List RawEvent) (rows : List SeedRow) :
    (Readable lib window events rows ∧
      ∃ map report, seedMap lib rows = some map ∧
        checkRows lib order window events rows = .report report ∧
        Partitions (indexerMap lib window events) map report) ∨
      ¬ Readable lib window events rows ∧ checkRows lib order window events rows = .panicked := by
  unfold checkRows
  by_cases complete : ∀ row ∈ rows, row.txHash.isSome = true
  · have read : seedMap lib rows = some (Table.insertAll (seedEntries lib rows)) :=
      seedMap_eq_some.mpr ⟨complete, rfl⟩
    have ends : _ ↔ Readable lib window events rows := compareMaps_of_rows order complete
    simp only [read]
    cases compared : compareMaps order (indexerMap lib window events)
        (Table.insertAll (seedEntries lib rows)) with
    | none =>
        rw [compared] at ends
        exact Or.inr ⟨fun readable => Bool.noConfusion (ends.mpr readable), rfl⟩
    | some report =>
        rw [compared] at ends
        exact Or.inl ⟨ends.mp rfl, _, report, rfl, rfl, compareMaps_partitions compared⟩
  · have unread : seedMap lib rows = none := by
      refine Option.eq_none_iff_forall_ne_some.mpr fun map read => ?_
      exact complete (seedMap_eq_some.mp read).1
    rw [unread]
    exact Or.inr ⟨fun readable => complete readable.1, rfl⟩

/-- The library, on ASCII. -/
def asciiLibrary : TextLibrary :=
  ⟨fun text => String.ofList (text.toList.map Char.toLower),
    fun text => String.ofList (text.toList.map Char.toLower)⟩

/-- A log of the indexer. -/
def indexedLog : RawEvent where
  txHash := "0x0f"
  logIndex := 0
  blockNumber := 7
  blockHash := "0xabababababab"
  blockTimestamp := 0
  contractName := .BondingManager
  eventName := .Bond
  asset := none
  amountNormalized := none
  isValuable := false
  fromAddress := none
  toAddress := none
  decoded := .none
  amount_of_asset := Bool.noConfusion
  id := 1
  finality := .tentative
  isCanonical := true
  finalizedAt := none

/-- The log in the seed, with a block hash that is cut. -/
def cutHashLog : SeedEvent := ⟨some "0x0F", some 7, some ⟨some "0x0", some "0x7", some "0xab"⟩⟩

/-- What the seed answers. -/
def cutHashRow : SeedRow := ⟨some "0x0f", ⟨some "0x0", some "0x7", some "0xab"⟩⟩

theorem cutHash_unreadable : ¬ Readable asciiLibrary (7, 7) [indexedLog] [cutHashRow] := by
  rintro ⟨_, fit⟩
  have slices := fit ("0x0f", 0) ⟨7, "0xabababababab"⟩ ⟨7, "0xab"⟩ (by decide +kernel)
    (by decide +kernel) (by decide +kernel)
  have short : ¬ 10 ≤ (utf8 "0xab".toList).length := by decide +kernel
  exact short slices.1.1

/-- A block hash that is shorter than ten bytes ends in a panic. -/
theorem shortHash_panics (order : MapOrder) :
    runCrossCheck asciiLibrary order [indexedLog] [cutHashLog] = .panicked := by
  have window : windowOf [indexedLog] = some (7, 7) := by decide +kernel
  have rows : selectSeedRows asciiLibrary (7, 7) [cutHashLog] = some [cutHashRow] := by
    decide +kernel
  rw [runCrossCheck, window]
  simp only [rows]
  rcases checkRows_cases asciiLibrary order (7, 7) [indexedLog] [cutHashRow] with
    ⟨readable, _⟩ | ⟨_, panicked⟩
  · exact absurd readable cutHash_unreadable
  · exact panicked

/-- There is an order of every map. -/
theorem mapOrder_nonempty : Nonempty MapOrder := by
  choose entries listing using fun map : Table Key LogValue => Table.exists_listing map
  exact ⟨⟨entries, listing⟩⟩

end Exactness

end ProtocolExplorer.Seed
