import ProtocolExplorer.Staker.ReceiptCompleteness

/-!
# Transaction fees of a report

A report takes the fee of a transaction from `tx_receipts`, or reads the receipt again when it has
no row yet.  The parser of the report is not that of the backfill: it asks for less of a receipt.

* `lookup_loadTxFees` — where the fee of each transaction comes from;
* `parseTxFee_of_receiptFields` — a receipt that gives a row gives the report the same fee;
* `decodes_iff_of_parseTxFee` — **which of the receipts a report accepts give a row**.
-/

set_option autoImplicit false

namespace ProtocolExplorer.Api

open ProtocolExplorer.Lib
open ProtocolExplorer.Store
open ProtocolExplorer.Staker
open ProtocolExplorer.Staker.Receipts (Decodes plainLibrary plainReceipt)
open ProtocolExplorer.Indexer.Wire (trimHexPrefix)

/-! ## The report -/

section Fees

variable (lib : ReceiptLibrary)

/-- `parse_u256_hex`. -/
def parseU256Hex (raw : String) : Option ℕ := lib.parseU256 (trimHexPrefix raw.toList)

/-- `parse_tx_fee_from_receipt`; a `null` receipt has no fields. -/
def parseTxFeeFromReceipt (receipt : Option Receipt) : Option Numeric := do
  let receipt ← receipt
  let gasUsed ← receipt.gasUsed
  let gasPrice ← receipt.effectiveGasPrice <|> receipt.gasPrice
  let gasUsed ← parseU256Hex lib gasUsed
  let gasPrice ← parseU256Hex lib gasPrice
  -- `saturating_mul`
  return u256ToDecimal (min (gasUsed * gasPrice) u256Max)

/-- What a report reads: a table and, through a cache, the provider. -/
structure FeeSources where
  txReceipts : Table TxHash ReceiptRow
  rpcCallCache : Table TxHash (Option Receipt)
  eth_getTransactionReceipt : TxHash → Except String (Option Receipt)

/-- What `single_call_cached` answers. -/
def FeeSources.answer (sources : FeeSources) (h : TxHash) : Except String (Option Receipt) :=
  (cachedCall sources.eth_getTransactionReceipt h sources.rpcCallCache).2

/-- The fee of a transaction without a row. -/
def fetchFee (sources : FeeSources) (h : TxHash) : Except String (TxHash × Numeric) := do
  let receipt ← sources.answer h
  let fee ← withContext ("malformed receipt for " ++ h) (parseTxFeeFromReceipt lib receipt)
  return (h, fee)

/-- `load_tx_fees`; of several failures, one is returned. -/
def loadTxFees (sources : FeeSources) (txHashes : List TxHash) :
    Except String (List (TxHash × Numeric)) := do
  let unique := txHashes.dedup
  let fees := unique.filterMap fun h =>
    (sources.txReceipts.lookup h).map fun row => (h, row.txFeeEth)
  let missing := unique.filter fun h => decide (h ∉ fees.map Prod.fst)
  let extras ← missing.mapM (fetchFee lib sources)
  return fees ++ extras

/-- The fee of one transaction. -/
def feeOf (sources : FeeSources) (h : TxHash) : Except String Numeric :=
  match sources.txReceipts.lookup h with
  | some row => .ok row.txFeeEth
  | none => (fetchFee lib sources h).map Prod.snd

end Fees

/-! ## Where a fee comes from -/

section Sources

variable {lib : ReceiptLibrary} {sources : FeeSources} {txHashes : List TxHash} {h : TxHash}

theorem fetchFee_fst {own : TxHash × Numeric} (fetched : fetchFee lib sources h = .ok own) :
    own.1 = h := by
  unfold fetchFee at fetched
  cases answered : sources.answer h with
  | error err =>
      rw [answered] at fetched
      cases fetched
  | ok receipt =>
      rw [answered] at fetched
      cases parsed : parseTxFeeFromReceipt lib receipt with
      | none =>
          simp only [bind, Except.bind, withContext, parsed] at fetched
          cases fetched
      | some fee =>
          simp only [bind, Except.bind, withContext, parsed] at fetched
          cases fetched
          rfl

/-- The fee of an answer. -/
theorem fetchFee_of_answer {receipt : Option Receipt} {fee : Numeric}
    (answered : sources.answer h = .ok receipt)
    (parsed : parseTxFeeFromReceipt lib receipt = some fee) :
    fetchFee lib sources h = .ok (h, fee) := by
  simp only [fetchFee, answered, bind, Except.bind, withContext, parsed]
  rfl

/-- Among pairs that agree on a key, the key is found. -/
theorem lookup_of_mem {pairs : List (TxHash × Numeric)} {fee : Numeric}
    (once : ∀ other, (h, other) ∈ pairs → other = fee) (member : (h, fee) ∈ pairs) :
    pairs.lookup h = some fee := by
  induction pairs with
  | nil => cases member
  | cons pair rest inductionHypothesis =>
      obtain ⟨key, value⟩ := pair
      by_cases same : key = h
      · subst same
        rw [List.lookup_cons_self, once value (List.mem_cons_self ..)]
      · have later : (h, fee) ∈ rest := by
          rcases List.mem_cons.mp member with equal | later
          · exact absurd (congrArg Prod.fst equal).symm same
          · exact later
        rw [List.lookup_cons, beq_eq_false_iff_ne.mpr (Ne.symm same)]
        exact inductionHypothesis (fun other inRest => once other (List.mem_cons_of_mem _ inRest))
          later

/-- What comes from the table. -/
theorem mem_storedFees {unique : List TxHash} {fee : Numeric} :
    (h, fee) ∈ (unique.filterMap fun h =>
        (sources.txReceipts.lookup h).map fun row => (h, row.txFeeEth)) ↔
      h ∈ unique ∧ ∃ row, sources.txReceipts.lookup h = some row ∧ row.txFeeEth = fee := by
  rw [List.mem_filterMap]
  constructor
  · rintro ⟨key, listed, own⟩
    obtain ⟨row, found, equal⟩ := Option.map_eq_some_iff.mp own
    cases equal
    exact ⟨listed, row, found, rfl⟩
  · rintro ⟨listed, row, found, rfl⟩
    exact ⟨h, listed, by rw [found, Option.map_some]⟩

/-- The transactions that are fetched. -/
theorem mem_missingFees {unique : List TxHash} :
    h ∈ (unique.filter fun h => decide (h ∉ ((unique.filterMap fun h =>
        (sources.txReceipts.lookup h).map fun row => (h, row.txFeeEth)).map Prod.fst))) ↔
      h ∈ unique ∧ sources.txReceipts.lookup h = none := by
  rw [List.mem_filter, decide_eq_true_eq]
  refine and_congr_right fun listed => ?_
  constructor
  · intro absent
    by_contra found
    obtain ⟨row, found⟩ := Option.ne_none_iff_exists'.mp found
    exact absent (List.mem_map.mpr ⟨(h, row.txFeeEth),
      mem_storedFees.mpr ⟨listed, row, found, rfl⟩, rfl⟩)
  · intro none present
    obtain ⟨⟨key, fee⟩, stored, rfl⟩ := List.mem_map.mp present
    obtain ⟨_, row, found, _⟩ := mem_storedFees.mp stored
    rw [none] at found
    cases found

/-- The fee of each transaction, from the table or fetched. -/
theorem lookup_loadTxFees {fees : List (TxHash × Numeric)}
    (loaded : loadTxFees lib sources txHashes = .ok fees) (listed : h ∈ txHashes) :
    ∃ fee, feeOf lib sources h = .ok fee ∧ fees.lookup h = some fee := by
  unfold loadTxFees at loaded
  simp only [bind, Except.bind, pure, Except.pure] at loaded
  split at loaded
  · cases loaded
  · next extras fetched =>
      cases loaded
      obtain ⟨each, all⟩ := mem_of_mapM_ok fetched
      have listed := List.mem_dedup.mpr listed
      have extra : ∀ fee, (h, fee) ∈ extras →
          sources.txReceipts.lookup h = none ∧ fetchFee lib sources h = .ok (h, fee) := by
        intro fee member
        obtain ⟨key, isMissing, own⟩ := all _ member
        obtain rfl : h = key := fetchFee_fst own
        exact ⟨(mem_missingFees.mp isMissing).2, own⟩
      unfold feeOf
      cases found : sources.txReceipts.lookup h with
      | some row =>
          refine ⟨row.txFeeEth, rfl, lookup_of_mem (fun other member => ?_) ?_⟩
          · rcases List.mem_append.mp member with stored | member
            · obtain ⟨_, row', found', rfl⟩ := mem_storedFees.mp stored
              rw [found] at found'
              cases found'
              rfl
            · rw [(extra other member).1] at found
              cases found
          · exact List.mem_append_left _ (mem_storedFees.mpr ⟨listed, row, found, rfl⟩)
      | none =>
          obtain ⟨⟨key, fee⟩, member, own⟩ := each h (mem_missingFees.mpr ⟨listed, found⟩)
          obtain rfl : key = h := fetchFee_fst own
          refine ⟨fee, by rw [own, Except.map], lookup_of_mem (fun other member' => ?_) ?_⟩
          · rcases List.mem_append.mp member' with stored | member'
            · obtain ⟨_, row, found', _⟩ := mem_storedFees.mp stored
              rw [found] at found'
              cases found'
            · have same := (extra other member').2
              rw [own] at same
              cases same
              rfl
          · exact List.mem_append_right _ member

/-- The fees are loaded if each one is. -/
theorem loadTxFees_ok (each : ∀ h ∈ txHashes, ∃ fee, feeOf lib sources h = .ok fee) :
    ∃ fees, loadTxFees lib sources txHashes = .ok fees := by
  unfold loadTxFees
  simp only [bind, Except.bind, pure, Except.pure]
  split
  · next err failed =>
      exfalso
      obtain ⟨h, isMissing, own⟩ := exists_of_mapM_error failed
      obtain ⟨listed, none⟩ := mem_missingFees.mp isMissing
      obtain ⟨fee, loaded⟩ := each h (List.mem_dedup.mp listed)
      rw [feeOf, none, own] at loaded
      cases loaded
  · exact ⟨_, rfl⟩

end Sources

/-! ## The two parsers -/

section Parsers

variable {lib : ReceiptLibrary} {receipt : Receipt} {txHash : TxHash} {fields : ReceiptFields}

/-- What the report asks of a receipt. -/
theorem parseTxFee_eq_some {fee : Numeric} :
    parseTxFeeFromReceipt lib (some receipt) = some fee ↔
      ∃ gasUsedHex, receipt.gasUsed = some gasUsedHex ∧
      ∃ gasPriceHex, (receipt.effectiveGasPrice <|> receipt.gasPrice) = some gasPriceHex ∧
      ∃ gasUsed, parseU256Hex lib gasUsedHex = some gasUsed ∧
      ∃ gasPrice, parseU256Hex lib gasPriceHex = some gasPrice ∧
        fee = u256ToDecimal (min (gasUsed * gasPrice) u256Max) := by
  simp only [parseTxFeeFromReceipt, Option.bind_eq_bind, Option.bind_some,
    Option.bind_eq_some_iff, pure, Option.some.injEq, eq_comm (a := fee)]

/-- What the backfill asks of it. -/
theorem receiptFields_eq_ok : receiptFields lib txHash receipt = .ok fields ↔
    ∃ gasUsedHex, receipt.gasUsed = some gasUsedHex ∧
    ∃ gasPriceHex, (receipt.effectiveGasPrice <|> receipt.gasPrice) = some gasPriceHex ∧
    ∃ statusHex, receipt.status = some statusHex ∧
    ∃ fromAddress, receipt.fromAddress = some fromAddress ∧
    ∃ gasUsed, parseU256Hex lib gasUsedHex = some gasUsed ∧
    ∃ gasPrice, parseU256Hex lib gasPriceHex = some gasPrice ∧
    ∃ status, parseStatusHex statusHex = some status ∧
      fields = ⟨gasUsed, gasPrice, min (gasUsed * gasPrice) u256Max,
        u256ToDecimal (min (gasUsed * gasPrice) u256Max), status, lib.toLowercase fromAddress,
        receipt.toAddress.map lib.toLowercase⟩ := by
  simp only [receiptFields, bind_eq_ok, pure_eq_ok, withContext_eq_ok, parseU256Hex,
    u256ToDecimal, eq_comm (a := fields)]

/-- A receipt that gives a row gives the report the same fee. -/
theorem parseTxFee_of_receiptFields (read : receiptFields lib txHash receipt = .ok fields) :
    parseTxFeeFromReceipt lib (some receipt) = some fields.txFeeEth := by
  obtain ⟨gasUsedHex, gas, gasPriceHex, price, _, _, _, _, gasUsed, gasRead, gasPrice, priceRead,
    _, _, rfl⟩ := receiptFields_eq_ok.mp read
  exact parseTxFee_eq_some.mpr ⟨gasUsedHex, gas, gasPriceHex, price, gasUsed, gasRead, gasPrice,
    priceRead, rfl⟩

theorem rowOfAnswer_eq_ok {c : ReceiptCandidate} {row : ReceiptRow} :
    rowOfAnswer lib c (some receipt) = .ok (some row) ↔
      ∃ fields, receiptFields lib c.txHash receipt = .ok fields ∧ row = ⟨c, fields⟩ := by
  rw [rowOfAnswer]
  cases receiptFields lib c.txHash receipt <;> simp [Except.map, eq_comm]

end Parsers

/-! ## Agreement -/

section Agreement

variable (lib : ReceiptLibrary)

/-- A receipt whose row is inserted, unless the database fails. -/
def Storable (c : ReceiptCandidate) (receipt : Receipt) : Prop :=
  ∃ row, rowOfAnswer lib c (some receipt) = .ok (some row) ∧
    ∀ weather table, weather.insertFailure = none →
      ∃ table', bulkInsert weather [row] table = .ok table'

/-- `gasUsed * price / 10^18`, from what the receipt says, is the fee of its row. -/
structure FeeExact (receipt : Receipt) (row : ReceiptRow) : Prop where
  gasUsed : receipt.gasUsed.bind (parseU256Hex lib) = some row.gasUsed
  price : (receipt.effectiveGasPrice <|> receipt.gasPrice).bind (parseU256Hex lib) =
    some row.effectiveGasPrice
  fee : row.txFeeEth.toRat = row.gasUsed * row.effectiveGasPrice / 10 ^ 18

/-- A transaction whose row is in the table, or whose receipt is read. -/
def FeeSources.Reach (sources : FeeSources) (txHash : TxHash) (receipt : Receipt)
    (row : ReceiptRow) : Prop :=
  sources.txReceipts.lookup txHash = some row ∨
    sources.txReceipts.lookup txHash = none ∧ sources.answer txHash = .ok (some receipt)

variable {lib}

theorem storable_iff_decodes {c : ReceiptCandidate} {receipt : Receipt} :
    Storable lib c receipt ↔ Decodes lib c.txHash receipt := by
  constructor
  · rintro ⟨row, own, inserts⟩
    obtain ⟨fields, read, rfl⟩ := rowOfAnswer_eq_ok.mp own
    obtain ⟨table', inserted⟩ := inserts ⟨fun _ => .ok none, fun _ => true, none, none⟩ ∅ rfl
    exact ⟨fields, read, (bulkInsert_ok inserted).2 _ (List.mem_singleton_self _)⟩
  · rintro ⟨fields, read, fits⟩
    refine ⟨⟨c, fields⟩, rowOfAnswer_eq_ok.mpr ⟨fields, read, rfl⟩, fun weather table calm => ?_⟩
    cases inserted : bulkInsert weather [⟨c, fields⟩] table with
    | ok table' => exact ⟨table', rfl⟩
    | error err =>
        exfalso
        rcases bulkInsert_error inserted with failure | ⟨row, member, tooLarge⟩
        · rw [calm] at failure
          cases failure
        · rw [List.mem_singleton.mp member] at tooLarge
          exact tooLarge fits

/-- Of the receipts a report accepts, those with a status and a sender and no enormous fee give a
row. -/
theorem decodes_iff_of_parseTxFee {txHash : TxHash} {receipt : Receipt} {fee : Numeric}
    (accepted : parseTxFeeFromReceipt lib (some receipt) = some fee) :
    Decodes lib txHash receipt ↔ (receipt.status.bind parseStatusHex).isSome ∧
      receipt.fromAddress.isSome ∧ fee.toRat < 10 ^ 20 := by
  obtain ⟨gasUsedHex, gas, gasPriceHex, price, gasUsed, gasRead, gasPrice, priceRead, rfl⟩ :=
    parseTxFee_eq_some.mp accepted
  have bound : (u256ToDecimal (min (gasUsed * gasPrice) u256Max)).toRat < 10 ^ 20 ↔
      min (gasUsed * gasPrice) u256Max < 10 ^ 38 := by
    rw [Decimal.toRat, u256ToDecimal, div_lt_iff₀ (by positivity), ← pow_add]
    simp only [Int.cast_natCast]
    exact_mod_cast Iff.rfl
  constructor
  · rintro ⟨fields, read, fits⟩
    obtain ⟨_, _, _, _, statusHex, hasStatus, _, hasFrom, _, _, _, _, status, statusRead, _⟩ :=
      receiptFields_eq_ok.mp read
    have same := parseTxFee_of_receiptFields read
    rw [accepted] at same
    refine ⟨?_, ?_, bound.mpr ?_⟩
    · rw [hasStatus, Option.bind_some, statusRead, Option.isSome_some]
    · rw [hasFrom, Option.isSome_some]
    · obtain ⟨_, gas', _, price', _, _, _, _, _, gasRead', _, priceRead', _, _, rfl⟩ :=
        receiptFields_eq_ok.mp read
      cases gas.symm.trans gas'
      cases price.symm.trans price'
      cases gasRead.symm.trans gasRead'
      cases priceRead.symm.trans priceRead'
      exact fits
  · rintro ⟨hasStatus, hasFrom, small⟩
    obtain ⟨status, statusRead⟩ := Option.isSome_iff_exists.mp hasStatus
    obtain ⟨statusHex, hasStatus, statusRead⟩ := Option.bind_eq_some_iff.mp statusRead
    obtain ⟨fromAddress, hasFrom⟩ := Option.isSome_iff_exists.mp hasFrom
    exact ⟨_, receiptFields_eq_ok.mpr ⟨gasUsedHex, gas, gasPriceHex, price, statusHex, hasStatus,
      fromAddress, hasFrom, gasUsed, gasRead, gasPrice, priceRead, status, statusRead, rfl⟩,
      bound.mp small⟩

/-- Below the bound of the column nothing is saturated. -/
theorem feeExact_of_fits {txHash : TxHash} {receipt : Receipt} {row : ReceiptRow}
    (read : receiptFields lib txHash receipt = .ok row.toReceiptFields)
    (fits : row.toReceiptFields.Fits) : FeeExact lib receipt row := by
  obtain ⟨c, fields⟩ := row
  obtain ⟨gasUsedHex, gas, gasPriceHex, price, _, _, _, _, gasUsed, gasRead, gasPrice, priceRead,
    _, _, rfl⟩ := receiptFields_eq_ok.mp read
  refine ⟨by rw [gas, Option.bind_some, gasRead], by rw [price, Option.bind_some, priceRead], ?_⟩
  have exact : min (gasUsed * gasPrice) u256Max = gasUsed * gasPrice := by
    refine min_eq_left_of_lt (lt_of_not_ge fun saturated => ?_)
    have fits : min (gasUsed * gasPrice) u256Max < 10 ^ 38 := fits
    rw [min_eq_right saturated] at fits
    exact absurd fits (by decide)
  simp only [Decimal.toRat, u256ToDecimal, exact]
  push_cast
  rfl

/-- A report finds the fee of the row, from the table or from the receipt. -/
theorem feeOf_of_reach {txHash : TxHash} {receipt : Receipt} {row : ReceiptRow}
    {sources : FeeSources} (read : receiptFields lib txHash receipt = .ok row.toReceiptFields)
    (reach : sources.Reach txHash receipt row) : feeOf lib sources txHash = .ok row.txFeeEth := by
  rcases reach with stored | ⟨absent, answered⟩
  · rw [feeOf, stored]
  · rw [feeOf, absent, fetchFee_of_answer answered (parseTxFee_of_receiptFields read), Except.map]

/-- **The fee of a stored row is exact and the same on both ways; a receipt the report accepts can
be stored exactly if it has a status and a sender and its fee fits.** -/
theorem txFeePaths_agree (lib : ReceiptLibrary) :
    (∀ (c : ReceiptCandidate) (receipt : Receipt) (row : ReceiptRow) (rows : List ReceiptRow)
        (weather : ReceiptWeather) (table table' : Table TxHash ReceiptRow),
      rowOfAnswer lib c (some receipt) = .ok (some row) → row ∈ rows →
      bulkInsert weather rows table = .ok table' →
        FeeExact lib receipt row ∧
        ∀ sources : FeeSources, sources.Reach c.txHash receipt row →
          (∃ fees, loadTxFees lib sources [c.txHash] = .ok fees) ∧
          ∀ txHashes fees, c.txHash ∈ txHashes → loadTxFees lib sources txHashes = .ok fees →
            fees.lookup c.txHash = some row.txFeeEth) ∧
    ∀ (c : ReceiptCandidate) (receipt : Receipt) (fee : Numeric),
      parseTxFeeFromReceipt lib (some receipt) = some fee →
        (Storable lib c receipt ↔ (receipt.status.bind parseStatusHex).isSome ∧
          receipt.fromAddress.isSome ∧ fee.toRat < 10 ^ 20) := by
  refine ⟨fun c receipt row rows weather table table' own member inserted => ?_,
    fun c receipt fee accepted => ?_⟩
  · obtain ⟨fields, read, rfl⟩ := rowOfAnswer_eq_ok.mp own
    refine ⟨feeExact_of_fits read ((bulkInsert_ok inserted).2 _ member), fun sources reach => ?_⟩
    have known : feeOf lib sources c.txHash = .ok fields.txFeeEth :=
      @feeOf_of_reach lib c.txHash receipt ⟨c, fields⟩ sources read reach
    refine ⟨loadTxFees_ok fun h listed => ?_, fun txHashes fees listed loaded => ?_⟩
    · rw [List.mem_singleton.mp listed]
      exact ⟨_, known⟩
    · obtain ⟨fee, same, found⟩ := lookup_loadTxFees loaded listed
      rw [known] at same
      cases same
      exact found
  · exact storable_iff_decodes.trans (decodes_iff_of_parseTxFee accepted)

/-- The row of a transfer. -/
def transferRow : ReceiptRow := ⟨⟨"0x01", 1, 0⟩, 21000, 1, 21000, ⟨21000⟩, 1, "0xa", some "0xb"⟩

/-- The fee of a transfer, from its row and from its receipt. -/
theorem txFeePaths_transfer : ∃ fees fees',
    loadTxFees plainLibrary ⟨Finmap.singleton "0x01" transferRow, ∅, fun _ => .ok none⟩
      ["0x01"] = .ok fees ∧
    loadTxFees plainLibrary ⟨∅, ∅, fun _ => .ok (some plainReceipt)⟩ ["0x01"] = .ok fees' ∧
    fees.lookup "0x01" = fees'.lookup "0x01" := by
  obtain ⟨_, agree⟩ := (txFeePaths_agree plainLibrary).1 ⟨"0x01", 1, 0⟩ plainReceipt transferRow
    [transferRow] ⟨fun _ => .ok none, fun _ => true, none, none⟩ ∅ _ rfl
    (List.mem_singleton_self _) rfl
  obtain ⟨⟨fees, stored⟩, same⟩ := agree
    ⟨Finmap.singleton "0x01" transferRow, ∅, fun _ => .ok none⟩ (Or.inl rfl)
  obtain ⟨⟨fees', fetched⟩, same'⟩ := agree ⟨∅, ∅, fun _ => .ok (some plainReceipt)⟩
    (Or.inr ⟨rfl, rfl⟩)
  exact ⟨fees, fees', stored, fetched, (same ["0x01"] fees (List.mem_singleton_self _) stored).trans
    (same' ["0x01"] fees' (List.mem_singleton_self _) fetched).symm⟩

/-- A receipt from before receipts had a status. -/
def statuslessReceipt : Receipt := { plainReceipt with status := none }

/-- A report accepts it, and the backfill cannot store it. -/
theorem statusless_not_storable : ¬ ∀ (lib : ReceiptLibrary) (c : ReceiptCandidate)
    (receipt : Receipt), (parseTxFeeFromReceipt lib (some receipt)).isSome →
      Storable lib c receipt := by
  intro claim
  obtain ⟨fields, read, _⟩ := storable_iff_decodes.mp
    (claim plainLibrary ⟨"0x01", 1, 0⟩ statuslessReceipt (by decide +kernel))
  obtain ⟨_, _, _, _, _, hasStatus, _⟩ := receiptFields_eq_ok.mp read
  cases hasStatus

end Agreement

end ProtocolExplorer.Api
