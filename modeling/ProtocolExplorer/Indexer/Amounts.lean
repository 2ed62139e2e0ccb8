import ProtocolExplorer.Indexer.Drive
import ProtocolExplorer.Lib.NumericColumns

/-!
# Amounts and their columns

`set_amount` keeps the raw amount of an event, a `uint256`, and its quotient by `10 ^ 18`.  The
first goes to a column of 78 digits, which every `uint256` fits, the second to a column of 38.
The rows of a chunk are inserted in one transaction, and a value without room fails it.

* `setAmount_exact` — the quotient is exact for every `uint256`;
* `chunk_storable_iff` — **the rows of a chunk are exact and can be stored exactly when every
  amount its logs carry is below `10 ^ 38`**;
* `generousTicket_not_storable` — a ticket of `10 ^ 38`.
-/

set_option autoImplicit false

namespace ProtocolExplorer.Indexer.Wire

open ProtocolExplorer.Lib
open ProtocolExplorer.Store

/-! ## The amounts of an event -/

/-- Both assets have 18 decimals. -/
def assetDecimals : ℕ := 18

/-- The normalized amount of `set_amount`, a quotient of the decimal library. -/
def setAmount (quotient : ℚ → ℚ → ℚ) (amount decimals : ℕ) : ℚ := quotient amount (10 ^ decimals)

/-- The generated types decode integers of at most 256 bits. -/
def Decoder.DecodesUint256 (decoder : Decoder) : Prop :=
  ∀ contract event logData args, decoder.decodeLogData contract event logData = .ok args →
    ∀ name, args.uint name < 2 ^ 256

/-- The log is decodable, and the amount is the one its event carries. -/
def Carries (decoder : Decoder) (contract : ContractKind) (blockTs : ℕ → Option ℤ) (raw : RawLog)
    (amount : ℕ) : Prop :=
  ∃ envelope event args, Decoder.HasEnvelope raw blockTs envelope ∧
    InTimestampRange envelope.seconds ∧
    decoder.eventOf contract envelope.topic0 = some event ∧
    decoder.decodeLogData contract event envelope.logData = .ok args ∧
    (fieldsOf args event).amountRaw = some amount

/-- Every amount of a decoded event is again a `uint256`. -/
theorem amountRaw_lt {args : EventArgs} (typed : ∀ name, args.uint name < 2 ^ 256)
    {event : EventName} {amount : ℕ} (carried : (fieldsOf args event).amountRaw = some amount) :
    amount < 2 ^ 256 := by
  cases event with
  | Withdrawal =>
      cases carried
      exact lt_of_le_of_lt (min_le_right _ _) (by decide)
  | _ =>
      first
        | cases carried; exact typed _
        | cases carried

/-- `10 ^ 18` divides a `uint256` within 100 digits. -/
theorem setAmount_exact {quotient : ℚ → ℚ → ℚ} (precise : ExactQuotients 100 quotient)
    {amount : ℕ} (typed : amount < 2 ^ 256) :
    setAmount quotient amount assetDecimals = (⟨(amount : ℤ)⟩ : Numeric).toRat := by
  have short : amount < 10 ^ 100 := lt_trans typed (by norm_num)
  rw [setAmount, quotient_of_digits precise short]
  rfl

/-! ## What a decoded row holds -/

section Rows

variable {decoder : Decoder} {contract : ContractKind} {raw : RawLog} {blockTs : ℕ → Option ℤ}
  {row : PreparedRow}

theorem rowOf_amountNormalized (topic0 : B256) (blockNumber logIndex : ℕ) (seconds : ℤ)
    (event : EventName) (fields : EventFields) :
    (decoder.rowOf contract raw topic0 blockNumber logIndex seconds event fields).amountNormalized =
      fields.amountRaw.map fun amount => ⟨(amount : ℤ)⟩ := by
  unfold Decoder.rowOf
  cases fields.amountRaw <;> rfl

theorem dispatch_amounts {topic0 : B256} {logData : LogData} {blockNumber logIndex : ℕ}
    {seconds : ℤ} (decoded : decoder.dispatch contract raw topic0 logData blockNumber logIndex
      seconds = .decoded row) :
    row.amountNormalized = row.amountRaw.map (fun amount => ⟨(amount : ℤ)⟩) ∧
      ∀ amount, row.amountRaw = some amount ↔ ∃ event args,
        decoder.eventOf contract topic0 = some event ∧
        decoder.decodeLogData contract event logData = .ok args ∧
        (fieldsOf args event).amountRaw = some amount := by
  unfold Decoder.dispatch at decoded
  cases found : decoder.eventOf contract topic0 with
  | none =>
      rw [found] at decoded
      cases decoded
  | some event =>
      rw [found] at decoded
      simp only at decoded
      split at decoded
      · next approval =>
          cases decoded
          refine ⟨rfl, fun amount => ⟨fun carried => ?_, ?_⟩⟩
          · cases carried
          · rintro ⟨_, args, same, _, carried⟩
            cases same
            rw [approval] at carried
            cases carried
      · split at decoded
        · cases decoded
        · next args parsed =>
            cases decoded
            refine ⟨rowOf_amountNormalized .., fun amount =>
              ⟨fun carried => ⟨event, args, rfl, parsed, carried⟩, ?_⟩⟩
            rintro ⟨_, args', same, parsed', carried⟩
            cases same
            cases parsed.symm.trans parsed'
            exact carried

/-- The envelope of a log is unique. -/
theorem hasEnvelope_unique {first second : Decoder.Envelope}
    (parsed : Decoder.HasEnvelope raw blockTs first)
    (parsed' : Decoder.HasEnvelope raw blockTs second) : first = second := by
  obtain ⟨topic0, logData, blockNumber, logIndex, seconds⟩ := first
  obtain ⟨topic0', logData', blockNumber', logIndex', seconds'⟩ := second
  cases parsed.topic0.symm.trans parsed'.topic0
  cases parsed.logData.symm.trans parsed'.logData
  cases parsed.blockNumber.symm.trans parsed'.blockNumber
  cases parsed.logIndex.symm.trans parsed'.logIndex
  cases parsed.seconds.symm.trans parsed'.seconds
  rfl

/-- **A decoded row has the amount its log carries, and that amount in units of `10 ^ (-18)`.** -/
theorem decodeOne_amounts (decoded : decoder.decodeOne contract raw blockTs = .decoded row) :
    row.amountNormalized = row.amountRaw.map (fun amount => ⟨(amount : ℤ)⟩) ∧
      ∀ amount, row.amountRaw = some amount ↔ Carries decoder contract blockTs raw amount := by
  obtain ⟨envelope, _, _, parsed, inRange, _⟩ := Decoder.decodeOne_decoded decoded
  rw [Decoder.decodeOne_of_envelope parsed, if_pos inRange] at decoded
  obtain ⟨normalized, carries⟩ := dispatch_amounts decoded
  refine ⟨normalized, fun amount => (carries amount).trans ⟨?_, ?_⟩⟩
  · rintro ⟨event, args, found, decodes, carried⟩
    exact ⟨envelope, event, args, parsed, inRange, found, decodes, carried⟩
  · rintro ⟨envelope', event, args, parsed', _, found, decodes, carried⟩
    cases hasEnvelope_unique parsed parsed'
    exact ⟨event, args, found, decodes, carried⟩

/-- A log that carries an amount is decoded to a row with it. -/
theorem exists_row_of_carries {amount : ℕ}
    (carries : Carries decoder contract blockTs raw amount) :
    ∃ row, decoder.decodeOne contract raw blockTs = .decoded row ∧
      row.amountRaw = some amount := by
  obtain ⟨envelope, event, args, parsed, inRange, found, decodes, carried⟩ := carries
  have notApproval : event ≠ .Approval := by
    rintro rfl
    cases carried
  refine ⟨decoder.rowOf contract raw envelope.topic0 envelope.blockNumber envelope.logIndex
    envelope.seconds event (fieldsOf args event), ?_, carried⟩
  rw [Decoder.decodeOne_of_envelope parsed, if_pos inRange]
  simp only [Decoder.dispatch, found, if_neg notApproval, decodes]

end Rows

/-! ## Storing a chunk -/

/-- `amount_raw NUMERIC(78, 0)` and `amount_normalized NUMERIC(38, 18)`. -/
def columnsHold (row : PreparedRow) : Bool :=
  row.amountRaw.all (fun amount => decide (amount < 10 ^ 78)) &&
    row.amountNormalized.all fun amount => decide (amount.Fits 38)

/-- `insert_events` on a table with columns of these sizes. -/
def insertIntoColumns (abiHash : String) (rows : List (ℤ × PreparedRow))
    (table : Table (TxHash × ℤ) StoredRow) : Except String (Table (TxHash × ℤ) StoredRow) :=
  if ∀ row ∈ rows, columnsHold row.2 = true then .ok (insertEvents abiHash rows table)
  else .error "numeric field overflow"

/-- What a chunk's rows ought to satisfy. -/
structure AmountsStorable (quotient : ℚ → ℚ → ℚ) (job : BackfillJob) (rows : List PreparedRow) :
    Prop where
  /-- The normalized amount is the raw one divided by `10 ^ 18`. -/
  exactly : ∀ row ∈ rows, ∀ amount, row.amountRaw = some amount →
    setAmount quotient amount assetDecimals * 10 ^ assetDecimals = amount ∧
      row.amountNormalized = some (Decimal.ofRat (setAmount quotient amount assetDecimals))
  /-- It fits `NUMERIC(38, 18)`. -/
  fits : ∀ row ∈ rows, ∀ amount, row.amountNormalized = some amount → amount.Fits 38
  /-- The insert succeeds, whatever is stored. -/
  inserts : ∀ (ids : ℕ → ℤ) (table : Table (TxHash × ℤ) StoredRow), ∃ after,
    insertIntoColumns job.abiHash (numbered ids rows) table = .ok after

/-- An insert fails when one of its rows does not fit. -/
theorem insertIntoColumns_ok_iff {abiHash : String} {ids : ℕ → ℤ} {rows : List PreparedRow}
    {table : Table (TxHash × ℤ) StoredRow} :
    (∃ after, insertIntoColumns abiHash (numbered ids rows) table = .ok after) ↔
      ∀ row ∈ rows, columnsHold row = true := by
  have among : (∀ row ∈ numbered ids rows, columnsHold row.2 = true) ↔
      ∀ row ∈ rows, columnsHold row = true := by
    constructor
    · intro all row member
      obtain ⟨id, listed⟩ := (mem_numbered ids).mpr member
      exact all (id, row) listed
    · intro all row listed
      exact all row.2 ((mem_numbered ids).mp ⟨row.1, listed⟩)
  rw [← among]
  unfold insertIntoColumns
  split
  · next all => exact ⟨fun _ => all, fun _ => ⟨_, rfl⟩⟩
  · next overflow =>
      refine ⟨?_, fun all => absurd all overflow⟩
      rintro ⟨after, stored⟩
      cases stored

/-- **The rows of a chunk are exact and can be stored exactly when every amount its logs carry is
below `10 ^ 38` wei.** -/
theorem chunk_storable_iff {quotient : ℚ → ℚ → ℚ} (precise : ExactQuotients 100 quotient)
    {decoder : Decoder} (typed : decoder.DecodesUint256) {job : BackfillJob}
    {blockTs : ℕ → Option ℤ} {raws : List RawLog} {dispatched : Dispatched}
    (looped : dispatchLogs decoder job blockTs raws = .ok dispatched) :
    AmountsStorable quotient job dispatched.prepared ↔
      ∀ raw ∈ raws, ∀ amount, Carries decoder job.contract blockTs raw amount →
        amount < 10 ^ 38 := by
  obtain ⟨each, all⟩ := dispatchLogs_ok looped
  have ofRow : ∀ row ∈ dispatched.prepared, ∃ raw ∈ raws,
      decoder.decodeOne job.contract raw blockTs = .decoded row := by
    intro row member
    obtain ⟨raw, listed, routed⟩ := (all (.row row)).mp member
    exact ⟨raw, listed, route_row_iff.mp routed⟩
  constructor
  · intro storable raw listed amount carries
    obtain ⟨row, decoded, carried⟩ := exists_row_of_carries carries
    have member := (all (.row row)).mpr ⟨raw, listed, route_row_iff.mpr decoded⟩
    have normalized := (decodeOne_amounts decoded).1
    rw [carried] at normalized
    exact Decimal.fits_natCast.mp (storable.fits _ member _ normalized)
  · intro small
    have held : ∀ row ∈ dispatched.prepared, ∀ amount, row.amountRaw = some amount →
        amount < 10 ^ 38 ∧ amount < 2 ^ 256 ∧ row.amountNormalized = some ⟨(amount : ℤ)⟩ := by
      intro row member amount carried
      obtain ⟨raw, listed, decoded⟩ := ofRow row member
      obtain ⟨normalized, carries⟩ := decodeOne_amounts decoded
      have own := (carries amount).mp carried
      rw [carried] at normalized
      refine ⟨small raw listed amount own, ?_, normalized⟩
      obtain ⟨_, event, args, _, _, _, decodes, isAmount⟩ := own
      exact amountRaw_lt (typed _ _ _ _ decodes) isAmount
    have none_ : ∀ row ∈ dispatched.prepared, row.amountRaw = none →
        row.amountNormalized = none := by
      intro row member missing
      obtain ⟨raw, _, decoded⟩ := ofRow row member
      rw [(decodeOne_amounts decoded).1, missing, Option.map_none]
    refine ⟨?_, ?_, ?_⟩
    · intro row member amount carried
      obtain ⟨_, word, normalized⟩ := held row member amount carried
      rw [setAmount_exact precise word, Decimal.ofRat_toRat]
      refine ⟨?_, normalized⟩
      unfold Decimal.toRat assetDecimals
      push_cast
      field_simp
    · intro row member amount normalized
      cases carried : row.amountRaw with
      | none =>
          rw [none_ row member carried] at normalized
          cases normalized
      | some wei =>
          obtain ⟨below, _, same⟩ := held row member wei carried
          rw [same] at normalized
          cases normalized
          exact Decimal.fits_natCast.mpr below
    · intro ids table
      refine insertIntoColumns_ok_iff.mpr ?_
      intro row member
      unfold columnsHold
      cases carried : row.amountRaw with
      | none =>
          rw [none_ row member carried]
          rfl
      | some wei =>
          obtain ⟨below, _, same⟩ := held row member wei carried
          rw [same]
          simp only [Option.all_some, Decimal.fits_natCast, Bool.and_eq_true, decide_eq_true_eq]
          exact ⟨lt_trans below (by decide), below⟩

/-! ## A generous ticket -/

/-- Reads one number from the data, the most significant byte first. -/
def wordDecoder : Decoder where
  signatureHash := plainDecoder.signatureHash
  decodeLogData _ _ logData := .ok
    ⟨fun _ => logData.data.foldl (fun n byte => (256 * n + byte.toNat) % 2 ^ 256) 0,
      fun name => "0x" ++ name, id, fun _ => []⟩
  toLowercase := plainDecoder.toLowercase

theorem wordDecoder_decodesUint256 : wordDecoder.DecodesUint256 := by
  intro contract event logData args decoded name
  cases decoded
  have bounded : ∀ (bytes : List UInt8) (n : ℕ), n < 2 ^ 256 →
      bytes.foldl (fun n byte => (256 * n + byte.toNat) % 2 ^ 256) n < 2 ^ 256 := by
    intro bytes
    induction bytes with
    | nil => exact fun n small => small
    | cons byte rest inductionHypothesis =>
        intro n _
        exact inductionHypothesis _ (Nat.mod_lt _ (by positivity))
  exact bounded logData.data 0 (by positivity)

def brokerJob : BackfillJob := ⟨.TicketBroker, "", "0xtb", "0xabi"⟩

/-- A redeemed ticket whose face value is the data. -/
def ticketLog (data : String) : RawLog where
  address := "0xTB"
  topics := [hexText (wordDecoder.signatureHash .TicketBroker .WinningTicketRedeemed)]
  data
  blockNumber := "0x3"
  blockHash := "0xH3"
  transactionHash := "0xAA"
  logIndex := "0x0"

/-- A face value of one ether. -/
def etherTicket : RawLog := ticketLog "0x0de0b6b3a7640000"

/-- A face value of `10 ^ 38` wei. -/
def generousTicket : RawLog := ticketLog "0x4b3b4ca85a86c47a098a224000000000"

/-- A chunk that holds one log. -/
def chunkOf (raw : RawLog) : Except String Dispatched :=
  dispatchLogs wordDecoder brokerJob (fun _ => some 100) [raw]

/-- The amount of the row a log decodes to. -/
def decodedAmount (raw : RawLog) : Option ℕ :=
  match wordDecoder.decodeOne .TicketBroker raw (fun _ => some 100) with
  | .decoded row => row.amountRaw
  | _ => none

/-- That is the amount the log carries. -/
theorem decodedAmount_eq_some {raw : RawLog} {amount : ℕ} :
    decodedAmount raw = some amount ↔
      Carries wordDecoder .TicketBroker (fun _ => some 100) raw amount := by
  unfold decodedAmount
  split
  · next row decoded => exact (decodeOne_amounts decoded).2 amount
  · next undecoded =>
      constructor
      · intro nothing
        cases nothing
      · intro carries
        obtain ⟨row, decoded, _⟩ := exists_row_of_carries carries
        exact absurd decoded (undecoded row)

/-- The chunk of a ticket of one ether is exact and can be stored. -/
theorem etherTicket_storable : ∃ dispatched, chunkOf etherTicket = .ok dispatched ∧
    AmountsStorable (· / ·) brokerJob dispatched.prepared := by
  have routed : (chunkOf etherTicket).isOk = true := by decide +kernel
  cases looped : chunkOf etherTicket with
  | error err =>
      rw [looped] at routed
      cases routed
  | ok dispatched =>
      refine ⟨dispatched, rfl, (chunk_storable_iff (exactQuotients_div 100)
        wordDecoder_decodesUint256 looped).mpr ?_⟩
      intro raw listed amount carries
      cases List.mem_singleton.mp listed
      have own : decodedAmount etherTicket = some (10 ^ 18) := by decide +kernel
      cases own.symm.trans (decodedAmount_eq_some.mpr carries)
      decide

/-- **The ticket decodes, and its chunk cannot be inserted.** -/
theorem generousTicket_not_storable : ∃ dispatched, chunkOf generousTicket = .ok dispatched ∧
    dispatched.strictFailures = [] ∧
    ¬ AmountsStorable (· / ·) brokerJob dispatched.prepared := by
  have overflows : (chunkOf generousTicket).toOption.any (fun dispatched =>
      dispatched.strictFailures.isEmpty &&
        dispatched.prepared.any fun row => !columnsHold row) = true := by decide +kernel
  cases looped : chunkOf generousTicket with
  | error err =>
      rw [looped] at overflows
      cases overflows
  | ok dispatched =>
      rw [looped] at overflows
      simp only [Except.toOption, Option.any_some, Bool.and_eq_true, List.isEmpty_iff,
        List.any_eq_true, Bool.not_eq_true'] at overflows
      obtain ⟨notStrict, row, member, tooWide⟩ := overflows
      refine ⟨dispatched, rfl, notStrict, ?_⟩
      intro storable
      have held := insertIntoColumns_ok_iff.mp (storable.inserts (fun _ => 1) ∅) row member
      rw [tooWide] at held
      cases held

end ProtocolExplorer.Indexer.Wire
