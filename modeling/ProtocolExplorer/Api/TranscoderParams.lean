import ProtocolExplorer.Indexer.Decode
import ProtocolExplorer.Lib.Failures
import ProtocolExplorer.Rollups.Writers

/-!
# Parameter histories

`/transcoders/{t}/params/history` and `/transcoders/{t}/params/block/{b}` find the updates of a
transcoder by the text of the second topic, which is stored as it was answered.
`/orchestrators/{t}/cuts-history` and the payout rollup find them by the decoded address.

* `topic_names_transcoder` — the text the first two look for belongs to updates of the transcoder
  only;
* `feeShareRawAtBlock_eq` — the share of the payout rollup, on stored rows;
* `views_agree_iff` — **the views agree exactly when the topics of the updates are spelled as the
  queries spell them**;
* `upperCaseTopic_diverges` — an update whose topic is answered in upper case.
-/

set_option autoImplicit false

namespace ProtocolExplorer.Api.Transcoders

open ProtocolExplorer.Lib
open ProtocolExplorer.Store (Address Timestamp TxHash RawEvent Decoded Finality ValuationKey
  ValuationRow BroadcasterKind)
open ProtocolExplorer.Indexer.Wire

variable {decoder : Decoder}

/-! ## Stored rows -/

/-- A row of `raw_protocol_events`, written for a log the decoder accepts. -/
structure StoredRow (decoder : Decoder) where
  id : ℤ
  row : PreparedRow
  finality : Finality
  isCanonical : Bool
  finalizedAt : Option Timestamp
  accepted : ∃ contract raw blockTs, decoder.decodeOne contract raw blockTs = .decoded row

namespace StoredRow

/-- `(block_number, log_index)`. -/
def position (e : StoredRow decoder) : Lex (ℤ × ℤ) := toLex (e.row.blockNumber, e.row.logIndex)

/-- `raw_event -> 'decoded' ->> name`. -/
def decodedText (e : StoredRow decoder) (name : String) : Option String :=
  match (e.row.decoded.getD []).lookup name with
  | some (.text text) => some text
  | some (.number n) => some (toString n)
  | none => none

/-- A canonical `TranscoderUpdate`. -/
def isUpdate (e : StoredRow decoder) : Bool :=
  e.isCanonical && decide (e.row.eventName = .TranscoderUpdate)

@[simp] theorem isUpdate_iff {e : StoredRow decoder} :
    e.isUpdate = true ↔ e.isCanonical = true ∧ e.row.eventName = .TranscoderUpdate := by
  simp [isUpdate]

end StoredRow

inductive ApiError where
  | badRequest (message : String)
  | notFound (message : String)
  | internal (message : String)
  deriving DecidableEq, Repr

/-- `normalize_addr`. -/
def normalizeAddr (decoder : Decoder) (s : String) : Except ApiError Address :=
  let lower := decoder.toLowercase s
  if "0x".toList <+: lower.toList ∧ lower.utf8ByteSize = 42 then .ok lower
  else .error (.badRequest s!"invalid address: {s}")

/-- The text of the topic of an address: `0x`, 24 zeros and the digits of the address. -/
def topicText (addr : Address) : String :=
  String.ofList ('0' :: 'x' :: List.replicate (2 * 12) '0' ++ trimHexPrefix addr.toList)

/-- `topic_for_address`. -/
def topicForAddress (decoder : Decoder) (addr : Address) : Except ApiError String :=
  topicText <$> normalizeAddr decoder addr

/-! ## Percentages -/

/-- `PERCENT_DENOMINATOR`, `percent_denom`. -/
def percentDenominator : ℚ := 10000

/-- `full_percent`. -/
def fullPercent : ℚ := 1000000

/-- `BigDecimal::from_str` of the text of an unsigned integer. -/
def parsePercentage (raw : String) : Except ApiError ℚ :=
  match raw.toNat? with
  | some n => .ok n
  | none => .error (.internal "parsing percentage value")

/-- `scaled_percent`. -/
def scaledPercent (raw : String) : Except ApiError ℚ :=
  (· / percentDenominator) <$> parsePercentage raw

/-- `inverse_scaled_percent`. -/
def inverseScaledPercent (raw : String) : Except ApiError ℚ :=
  (fun share => (fullPercent - share) / percentDenominator) <$> parsePercentage raw

/-! ## `/transcoders/{t}/params` -/

structure DecodedTranscoderUpdate where
  transcoder : Address
  rewardCutRaw : String
  feeShareRaw : String
  deriving DecidableEq

/-- `decoded.get(name).and_then(Value::as_str)`. -/
def asStr (decoded : List (String × DecodedValue)) (name : String) : Except ApiError String :=
  match decoded.lookup name with
  | some (.text text) => .ok text
  | _ => .error (.internal s!"decoded {name} missing")

/-- `decode_transcoder_update`. -/
def decodeTranscoderUpdate (e : StoredRow decoder) : Except ApiError DecodedTranscoderUpdate :=
  match e.row.decoded with
  | some decoded => do
      let transcoder ← asStr decoded "transcoder"
      let rewardCutRaw ← asStr decoded "rewardCut"
      let feeShareRaw ← asStr decoded "feeShare"
      return ⟨decoder.toLowercase transcoder, rewardCutRaw, feeShareRaw⟩
  | none =>
      match buildLogData e.row.rawEvent with
      | .error err => .error (.internal err)
      | .ok logData =>
          match decoder.decodeLogData .BondingManager .TranscoderUpdate logData with
          | .error err => .error (.internal s!"ABI-decoding TranscoderUpdate: {err}")
          | .ok args => .ok ⟨decoder.toLowercase (args.address "transcoder"),
              toString (args.uint "rewardCut"), toString (args.uint "feeShare")⟩

structure TranscoderParamsRow where
  eventId : ℤ
  transcoderAddress : Address
  blockNumber : ℤ
  blockTimestamp : Timestamp
  txHash : TxHash
  logIndex : ℤ
  rewardCutRaw : String
  rewardCutPercent : ℚ
  feeShareRaw : String
  feeSharePercent : ℚ
  feeCutPercent : ℚ
  deriving DecidableEq

/-- The row `load_updates` answers for an update. -/
def paramsRow (e : StoredRow decoder) : Except ApiError TranscoderParamsRow := do
  let decoded ← decodeTranscoderUpdate e
  let rewardCutPercent ← scaledPercent decoded.rewardCutRaw
  let feeSharePercent ← scaledPercent decoded.feeShareRaw
  let feeCutPercent ← inverseScaledPercent decoded.feeShareRaw
  return {
    eventId := e.id
    transcoderAddress := decoded.transcoder
    blockNumber := e.row.blockNumber
    blockTimestamp := e.row.blockTimestamp
    txHash := e.row.txHash
    -- `as u32`
    logIndex := e.row.logIndex % 2 ^ 32
    rewardCutRaw := decoded.rewardCutRaw
    rewardCutPercent
    feeShareRaw := decoded.feeShareRaw
    feeSharePercent
    feeCutPercent }

/-- A bound of the `WHERE` clause; it may be absent. -/
def inWindow (fromBlock toBlock : Option ℤ) (block : ℤ) : Bool :=
  fromBlock.all (decide <| · ≤ block) && toBlock.all (decide <| block ≤ ·)

/-- The updates with a topic, within bounds. -/
def selectByTopic (table : List (StoredRow decoder)) (topic1 : String)
    (fromBlock toBlock : Option ℤ) : List (StoredRow decoder) :=
  table.filter fun e => e.isUpdate && decide (e.row.rawEvent.topics[1]? = some topic1) &&
    inWindow fromBlock toBlock e.row.blockNumber

/-- `load_updates`; the logs of a block have different indexes. -/
def loadUpdates (table : List (StoredRow decoder)) (transcoder : Address)
    (fromBlock toBlock : Option ℤ) (limit : ℕ) : Except ApiError (List TranscoderParamsRow) := do
  let topic1 ← topicForAddress decoder transcoder
  let rows := (orderBy StoredRow.position (selectByTopic table topic1 fromBlock toBlock)).reverse
  (rows.take limit).mapM paramsRow

/-- `DEFAULT_LIMIT`. -/
def defaultLimit : ℕ := 100

/-- `MAX_LIMIT`. -/
def maxLimit : ℕ := 1000

/-- `history`. -/
def history (table : List (StoredRow decoder)) (transcoder : String)
    (fromBlock toBlock : Option ℤ) (limit : Option ℕ) :
    Except ApiError (List TranscoderParamsRow) := do
  let transcoder ← normalizeAddr decoder transcoder
  loadUpdates table transcoder fromBlock toBlock (min (limit.getD defaultLimit) maxLimit)

/-- `at_block`. -/
def atBlock (table : List (StoredRow decoder)) (transcoder : String) (block : ℤ) :
    Except ApiError TranscoderParamsRow := do
  let transcoder ← normalizeAddr decoder transcoder
  match (← loadUpdates table transcoder none (some block) 1) with
  | row :: _ => return row
  | [] => throw (.notFound s!"no TranscoderUpdate at or before block {block} for {transcoder}")

/-! ## `/orchestrators/{t}/cuts-history` -/

structure CutsHistoryPoint where
  blockNumber : ℤ
  blockTimestamp : Timestamp
  feeCutPercent : ℚ
  rewardCutPercent : ℚ
  feeSharePercent : ℚ
  eventId : ℤ
  deriving DecidableEq

/-- `(… ->> name)::numeric`, then `try_get(…).unwrap_or_default()`. -/
def numericOf : Option String → Except ApiError ℚ
  | none => .ok 0
  | some text =>
      match text.toNat? with
      | some n => .ok n
      | none => .error (.internal "invalid input syntax for type numeric")

/-- The point of an update. -/
def cutsPoint (e : StoredRow decoder) : Except ApiError CutsHistoryPoint := do
  let rewardRaw ← numericOf (e.decodedText "rewardCut")
  let feeShareRaw ← numericOf (e.decodedText "feeShare")
  return {
    blockNumber := e.row.blockNumber
    blockTimestamp := e.row.blockTimestamp
    feeCutPercent := (fullPercent - feeShareRaw) / percentDenominator
    rewardCutPercent := rewardRaw / percentDenominator
    feeSharePercent := feeShareRaw / percentDenominator
    eventId := e.id }

/-- The updates of an orchestrator, by its decoded address. -/
def selectByAddress (table : List (StoredRow decoder)) (address : Address) :
    List (StoredRow decoder) :=
  orderBy StoredRow.position
    (table.filter fun e => e.isUpdate && decide (e.row.toAddress = some address))

/-- `orchestrators_cuts_history`. -/
def cutsHistory (table : List (StoredRow decoder)) (address : String) :
    Except ApiError (List CutsHistoryPoint) := do
  let address ← normalizeAddr decoder address
  (selectByAddress table address).mapM cutsPoint

/-! ## The share of a payout -/

/-- The `FeeSharePoint` of an update. -/
def feeSharePoint (e : StoredRow decoder) : Except ApiError (Lex (ℤ × ℤ) × ℚ) := do
  let feeShareRaw ← parsePercentage ((e.decodedText "feeShare").getD "0")
  return (e.position, feeShareRaw)

/-- `fee_share_raw_at_block`, on stored rows. -/
def feeShareRawAtBlock (table : List (StoredRow decoder)) (orchestrator : Address)
    (position : Lex (ℤ × ℤ)) : Except ApiError ℚ := do
  let rows := (selectByAddress table orchestrator).filter fun e =>
    decide (e.row.contractName = .BondingManager)
  let points ← rows.mapM feeSharePoint
  -- the loop breaks at the first later point
  return ((points.takeWhile fun point => decide (point.1 ≤ position)).getLast?.map Prod.snd).getD 0

/-! ## What a stored update says -/

/-- What the generated event types and the standard library are documented to do: an indexed
address is the last twenty bytes of its topic, and lower case has no upper-case letter. -/
structure Documented (decoder : Decoder) : Prop where
  transcoder {logData : LogData} {args : EventArgs} :
    decoder.decodeLogData .BondingManager .TranscoderUpdate logData = .ok args →
      ∃ topic1, logData.topics[1]? = some topic1 ∧
        args.address "transcoder" = hexText (topic1.drop 12)
  lower (s : String) : ∀ c ∈ (decoder.toLowercase s).toList, c.isUpper = false
  lower_lower (s : String) : decoder.toLowercase (decoder.toLowercase s) = decoder.toLowercase s

/-- The columns of an update. -/
structure ReadsAs (e : StoredRow decoder) (transcoder : Address) (rewardCut feeShare : ℕ) :
    Prop where
  contract : e.row.contractName = .BondingManager
  toAddress : e.row.toAddress = some transcoder
  decoded : e.row.decoded = some [("transcoder", .text transcoder),
    ("rewardCut", .text (toString rewardCut)), ("feeShare", .text (toString feeShare))]
  topic : ∃ text topic1, e.row.rawEvent.topics[1]? = some text ∧ b256FromStr text = some topic1 ∧
    transcoder = hexText (topic1.drop 12)

/-- The topics of a log, and their texts. -/
theorem topics_of_buildLogData {raw : RawLog} {logData : LogData}
    (built : buildLogData raw = .ok logData) : raw.topics.mapM b256FromStr = some logData.topics := by
  unfold buildLogData at built
  split at built
  · cases built
  · next topics parsed =>
      split at built
      · cases built
      · split at built
        · cases built
          exact parsed
        · cases built

theorem getElem?_of_mapM {α β : Type} {f : α → Option β} {inputs : List α} {results : List β}
    (mapped : inputs.mapM f = some results) {index : ℕ} {result : β}
    (found : results[index]? = some result) : ∃ input, inputs[index]? = some input ∧
      f input = some result := by
  induction inputs generalizing results index with
  | nil =>
      cases mapped
      cases found
  | cons head rest inductionHypothesis =>
      simp only [List.mapM_cons, Option.bind_eq_bind, Option.bind_eq_some_iff, Option.pure_def,
        Option.some.injEq] at mapped
      obtain ⟨first, made, later, mappedRest, rfl⟩ := mapped
      cases index with
      | zero =>
          cases found
          exact ⟨head, rfl, made⟩
      | succ index => exact inductionHypothesis mappedRest found

theorem readsAs (documented : Documented decoder) {e : StoredRow decoder}
    (update : e.isUpdate = true) : ∃ transcoder rewardCut feeShare,
      ReadsAs e transcoder rewardCut feeShare := by
  obtain ⟨contract, raw, blockTs, decoded⟩ := e.accepted
  have named := (StoredRow.isUpdate_iff.mp update).2
  obtain ⟨envelope, args, parsed, known, computed, made⟩ :=
    Decoder.decodeOne_args decoded (by rw [named]; decide)
  rw [named] at known computed made
  have bonding : contract = .BondingManager := by
    cases contract <;> first | rfl | exact absurd known (by decide)
  subst bonding
  obtain ⟨topic1, second, address⟩ := documented.transcoder computed
  obtain ⟨text, stored, read⟩ :=
    getElem?_of_mapM (topics_of_buildLogData parsed.logData) second
  exact ⟨args.address "transcoder", args.uint "rewardCut", args.uint "feeShare",
    { contract := by rw [made]; rfl
      toAddress := by rw [made]; rfl
      decoded := by rw [made]; rfl
      topic := ⟨text, topic1, by rw [made]; exact stored, read, address⟩ }⟩

/-! ## The two selections -/

/-- The digits of the topic an address is looked up by. -/
theorem trimHexPrefix_topicText (address : Address) :
    trimHexPrefix (topicText address).toList =
      List.replicate (2 * 12) '0' ++ trimHexPrefix address.toList := by
  rw [topicText, String.toList_ofList, List.cons_append, List.cons_append, trimHexPrefix]
  refine trimHexPrefix.eq_2 _ ?_
  intro rest same
  simp [List.replicate_succ] at same

/-- The topic an address is looked up by is the topic of that address. -/
theorem topic_names_transcoder {address : Address} {topic1 : B256}
    (hexPrefix : "0x".toList <+: address.toList) (size : address.utf8ByteSize = 42)
    (lower : ∀ c ∈ address.toList, c.isUpper = false)
    (read : b256FromStr (topicText address) = some topic1) :
    hexText (topic1.drop 12) = address := by
  obtain ⟨rest, split⟩ := hexPrefix
  have chars : address.toList = '0' :: 'x' :: rest := by
    rw [← split]
    simp
  obtain ⟨decoded, length⟩ := Option.filter_eq_some_iff.mp read
  rw [trimHexPrefix_topicText, hexDecode_zeros, Option.map_eq_some_iff] at decoded
  obtain ⟨tail, decodedTail, rfl⟩ := decoded
  rw [chars, trimHexPrefix] at decodedTail
  have lowerRest : ∀ c ∈ rest, c.isUpper = false := fun c member => lower c (by simp [chars, member])
  have lowerDigits : ∀ c ∈ trimHexPrefix rest, c.isUpper = false := fun c member =>
    lowerRest c ((trimHexPrefix_suffix rest).subset member)
  -- the digits fill the address, so that it has one prefix only
  have filled : String.utf8Len (trimHexPrefix rest) = 40 := by
    rw [utf8Len_of_hexDecode decodedTail lowerDigits, length_of_hexDecode decodedTail]
    simp only [List.length_append, List.length_replicate, decide_eq_true_eq] at length
    omega
  have whole : String.utf8Len rest = 40 := by
    rw [← String.ofList_toList (s := address), String.utf8ByteSize_ofList, chars] at size
    have ascii : '0'.utf8Size = 1 ∧ 'x'.utf8Size = 1 := ⟨rfl, rfl⟩
    simp only [String.utf8Len_cons, ascii.1, ascii.2] at size
    omega
  have once : trimHexPrefix rest = rest := trimHexPrefix_eq_self (by rw [filled, whole])
  rw [once] at decodedTail
  have dropped : (List.replicate 12 (0 : UInt8) ++ tail).drop 12 = tail := by simp
  rw [dropped, hexText, flatMap_byteText decodedTail lowerRest, ← chars, String.ofList_toList]

/-! ## What the views answer -/

/-- A number that is kept as text. -/
def StoredRow.numeral (e : StoredRow decoder) (name : String) : ℕ :=
  ((e.decodedText name).bind String.toNat?).getD 0

/-- The row of an update. -/
def updateRow (e : StoredRow decoder) : TranscoderParamsRow where
  eventId := e.id
  transcoderAddress := decoder.toLowercase (e.row.toAddress.getD "")
  blockNumber := e.row.blockNumber
  blockTimestamp := e.row.blockTimestamp
  txHash := e.row.txHash
  logIndex := e.row.logIndex % 2 ^ 32
  rewardCutRaw := toString (e.numeral "rewardCut")
  rewardCutPercent := e.numeral "rewardCut" / percentDenominator
  feeShareRaw := toString (e.numeral "feeShare")
  feeSharePercent := e.numeral "feeShare" / percentDenominator
  feeCutPercent := (fullPercent - e.numeral "feeShare") / percentDenominator

/-- The event of a row and its percentages, as `cuts-history` reports them. -/
def TranscoderParamsRow.point (row : TranscoderParamsRow) : CutsHistoryPoint where
  blockNumber := row.blockNumber
  blockTimestamp := row.blockTimestamp
  feeCutPercent := row.feeCutPercent
  rewardCutPercent := row.rewardCutPercent
  feeSharePercent := row.feeSharePercent
  eventId := row.eventId

@[simp] theorem toNat?_toString (n : ℕ) : (toString n).toNat? = some n := Nat.toNat?_repr n

@[simp] theorem parsePercentage_toString (n : ℕ) : parsePercentage (toString n) = .ok (n : ℚ) := by
  simp [parsePercentage]

@[simp] theorem scaledPercent_toString (n : ℕ) :
    scaledPercent (toString n) = .ok ((n : ℚ) / percentDenominator) := by
  rw [scaledPercent, parsePercentage_toString]
  rfl

@[simp] theorem inverseScaledPercent_toString (n : ℕ) :
    inverseScaledPercent (toString n) = .ok ((fullPercent - n) / percentDenominator) := by
  rw [inverseScaledPercent, parsePercentage_toString]
  rfl

section Answers

variable {e : StoredRow decoder} {transcoder : Address} {rewardCut feeShare : ℕ}

theorem ReadsAs.texts (reads : ReadsAs e transcoder rewardCut feeShare) :
    e.decodedText "rewardCut" = some (toString rewardCut) ∧
      e.decodedText "feeShare" = some (toString feeShare) := by
  simp [StoredRow.decodedText, reads.decoded, List.lookup]

theorem ReadsAs.numerals (reads : ReadsAs e transcoder rewardCut feeShare) :
    e.numeral "rewardCut" = rewardCut ∧ e.numeral "feeShare" = feeShare := by
  simp [StoredRow.numeral, reads.texts]

theorem ReadsAs.paramsRow (reads : ReadsAs e transcoder rewardCut feeShare) :
    paramsRow e = .ok (updateRow e) := by
  have decoded : decodeTranscoderUpdate e =
      .ok ⟨decoder.toLowercase transcoder, toString rewardCut, toString feeShare⟩ := by
    simp only [decodeTranscoderUpdate, reads.decoded]
    rfl
  simp only [Transcoders.paramsRow, decoded, bind, Except.bind, scaledPercent_toString,
    inverseScaledPercent_toString, updateRow, reads.toAddress, reads.numerals]
  rfl

theorem ReadsAs.feeSharePoint (reads : ReadsAs e transcoder rewardCut feeShare) :
    feeSharePoint e = .ok (e.position, (e.numeral "feeShare" : ℚ)) := by
  simp only [Transcoders.feeSharePoint, reads.texts, reads.numerals, Option.getD_some,
    parsePercentage_toString]
  rfl

theorem ReadsAs.cutsPoint (reads : ReadsAs e transcoder rewardCut feeShare) :
    cutsPoint e = .ok (updateRow e).point := by
  simp only [Transcoders.cutsPoint, reads.texts, numericOf, toNat?_toString, updateRow, reads.numerals,
    TranscoderParamsRow.point]
  rfl

end Answers

/-! ## Agreement -/

section Agreement

variable (documented : Documented decoder) (table : List (StoredRow decoder)) (address : Address)

/-- The updates of an address have its topic as the queries spell it. -/
def SpelledAsQueried : Prop :=
  ∀ e ∈ table, e.isUpdate = true → e.row.toAddress = some address →
    e.row.rawEvent.topics[1]? = some (topicText address)

instance : Decidable (SpelledAsQueried table address) := inferInstanceAs (Decidable (∀ e ∈ table, _))

/-- An address as `normalize_addr` answers it. -/
structure Normalized (decoder : Decoder) (address : Address) : Prop where
  again : normalizeAddr decoder address = .ok address
  hexPrefix : "0x".toList <+: address.toList
  size : address.utf8ByteSize = 42
  lower : ∀ c ∈ address.toList, c.isUpper = false

variable {table address}

include documented in
theorem normalized {path : String} (answered : normalizeAddr decoder path = .ok address) :
    Normalized decoder address := by
  unfold normalizeAddr at answered
  simp only at answered
  split_ifs at answered with accepted
  cases answered
  have lowered := documented.lower_lower path
  exact {
    again := by simp only [normalizeAddr, lowered, if_pos accepted]
    hexPrefix := accepted.1
    size := accepted.2
    lower := documented.lower path }

include documented in
/-- The topic of an address finds updates of that address only. -/
theorem toAddress_of_topic (normal : Normalized decoder address) {e : StoredRow decoder}
    (update : e.isUpdate = true)
    (spelled : e.row.rawEvent.topics[1]? = some (topicText address)) :
    e.row.toAddress = some address := by
  obtain ⟨transcoder, _, _, reads⟩ := readsAs documented update
  obtain ⟨text, topic1, stored, read, named⟩ := reads.topic
  rw [stored, Option.some.injEq] at spelled
  rw [spelled] at read
  rw [reads.toAddress, named,
    topic_names_transcoder normal.hexPrefix normal.size normal.lower read]

include documented in
theorem loadUpdates_eq (normal : Normalized decoder address) (fromBlock toBlock : Option ℤ)
    (limit : ℕ) : loadUpdates table address fromBlock toBlock limit =
      .ok (((orderBy StoredRow.position
        (selectByTopic table (topicText address) fromBlock toBlock)).reverse.take limit).map
          updateRow) := by
  have topic : topicForAddress decoder address = .ok (topicText address) := by
    rw [topicForAddress, normal.again]
    rfl
  have each : ∀ e ∈ (orderBy StoredRow.position
      (selectByTopic table (topicText address) fromBlock toBlock)).reverse.take limit,
      paramsRow e = .ok (updateRow e) := by
    intro e member
    have selected := mem_orderBy.mp (List.mem_reverse.mp (List.mem_of_mem_take member))
    have update := (Bool.and_eq_true _ _ ▸ (Bool.and_eq_true _ _ ▸
      (List.mem_filter.mp selected).2).1).1
    obtain ⟨transcoder, _, _, reads⟩ := readsAs documented update
    exact reads.paramsRow
  simp only [loadUpdates, topic, bind, Except.bind, mapM_ok each]

include documented in
theorem readsAs_of_selected {e : StoredRow decoder} (member : e ∈ selectByAddress table address) :
    ∃ rewardCut feeShare, ReadsAs e address rewardCut feeShare := by
  have columns := (Bool.and_eq_true _ _).mp (List.mem_filter.mp (mem_orderBy.mp member)).2
  obtain ⟨transcoder, rewardCut, feeShare, reads⟩ := readsAs documented columns.1
  have same : transcoder = address :=
    Option.some.inj (reads.toAddress.symm.trans (of_decide_eq_true columns.2))
  exact ⟨rewardCut, feeShare, same ▸ reads⟩

include documented in
theorem cutsHistory_eq {path : String} (answered : normalizeAddr decoder path = .ok address) :
    cutsHistory table path =
      .ok ((selectByAddress table address).map fun e => (updateRow e).point) := by
  have each : ∀ e ∈ selectByAddress table address, cutsPoint e = .ok (updateRow e).point := by
    intro e member
    obtain ⟨_, _, reads⟩ := readsAs_of_selected documented member
    exact reads.cutsPoint
  simp only [cutsHistory, answered, bind, Except.bind, mapM_ok each]

/-- When the topics are spelled as queried, both selections are the same. -/
theorem selectByTopic_eq (documented : Documented decoder) (normal : Normalized decoder address)
    (spelled : SpelledAsQueried table address) (fromBlock toBlock : Option ℤ) :
    orderBy StoredRow.position (selectByTopic table (topicText address) fromBlock toBlock) =
      (selectByAddress table address).filter fun e =>
        inWindow fromBlock toBlock e.row.blockNumber := by
  rw [selectByAddress, filter_orderBy, List.filter_filter, selectByTopic]
  congr 1
  refine List.filter_congr fun e stored => ?_
  rw [Bool.eq_iff_iff]
  simp only [Bool.and_eq_true, decide_eq_true_eq]
  constructor
  · rintro ⟨⟨update, topic⟩, inside⟩
    exact ⟨inside, update, toAddress_of_topic documented normal update topic⟩
  · rintro ⟨inside, update, receiver⟩
    exact ⟨⟨update, spelled e stored update receiver⟩, inside⟩

end Agreement

/-- What two views of an orchestrator's updates promise each other. -/
structure ViewsAgree (table : List (StoredRow decoder)) (path : String) : Prop where
  /-- `load_updates`, whose bounds and limit are those of a request for `/params/history`, answers
  the newest events of `cuts-history` within the bounds, with the same percentages. -/
  history (address : Address) (fromBlock toBlock : Option ℤ) (limit : ℕ) :
    normalizeAddr decoder path = .ok address →
      List.map TranscoderParamsRow.point <$> loadUpdates table address fromBlock toBlock limit =
        (fun points => ((points.filter fun point =>
          inWindow fromBlock toBlock point.blockNumber).reverse.take limit)) <$>
            cutsHistory table path
  /-- The share at a block is the share of a ticket after all updates up to that block and before
  any later one. -/
  atBlock (address : Address) (block : ℤ) (row : TranscoderParamsRow) (ticket : Lex (ℤ × ℤ)) :
    normalizeAddr decoder path = .ok address → atBlock table path block = .ok row →
      (∀ e ∈ table, e.isUpdate = true → e.row.toAddress = some address →
        (e.position ≤ ticket ↔ e.row.blockNumber ≤ block)) →
      ∃ feeShare : ℕ, row.feeShareRaw = toString feeShare ∧
        row.feeSharePercent = feeShare / percentDenominator ∧
        feeShareRawAtBlock table address ticket = .ok (feeShare : ℚ)

section Proofs

variable {table : List (StoredRow decoder)} {address : Address} {path : String}

/-- The share of the payout rollup is that of the last update at or before the ticket. -/
theorem feeShareRawAtBlock_ok (documented : Documented decoder) (ticket : Lex (ℤ × ℤ)) :
    feeShareRawAtBlock table address ticket =
      .ok ((((selectByAddress table address).filter fun e =>
        decide (e.position ≤ ticket)).getLast?.map fun e => (e.numeral "feeShare" : ℚ)).getD 0) := by
  have bonding : ((selectByAddress table address).filter fun e =>
      decide (e.row.contractName = .BondingManager)) = selectByAddress table address :=
    List.filter_eq_self.mpr fun e member => by
      obtain ⟨_, _, reads⟩ := readsAs_of_selected documented member
      exact decide_eq_true reads.contract
  have each : ∀ e ∈ selectByAddress table address,
      feeSharePoint e = .ok (e.position, (e.numeral "feeShare" : ℚ)) := by
    intro e member
    obtain ⟨_, _, reads⟩ := readsAs_of_selected documented member
    exact reads.feeSharePoint
  have ascending : (selectByAddress table address).Pairwise fun a b => a.position ≤ b.position :=
    orderBy_pairwise _ _
  simp only [feeShareRawAtBlock, bonding, mapM_ok each, bind, Except.bind, List.takeWhile_map,
    Function.comp_def, takeWhile_le_eq_filter ascending, List.getLast?_map, Option.map_map]
  rfl

/-- The row at a block is that of the last update up to it. -/
theorem atBlock_ok (documented : Documented decoder) (spelled : SpelledAsQueried table address)
    (answered : normalizeAddr decoder path = .ok address) {block : ℤ} {row : TranscoderParamsRow}
    (found : atBlock table path block = .ok row) :
    ∃ e, ((selectByAddress table address).filter fun e =>
      decide (e.row.blockNumber ≤ block)).getLast? = some e ∧ row = updateRow e := by
  have normal := normalized documented answered
  have upTo : ∀ b : ℤ, inWindow none (some block) b = decide (b ≤ block) := fun b => by simp [inWindow]
  simp only [atBlock, answered, bind, Except.bind, loadUpdates_eq documented normal,
    selectByTopic_eq documented normal spelled, upTo] at found
  generalize ((selectByAddress table address).filter fun e =>
    decide (e.row.blockNumber ≤ block)) = updates at found ⊢
  cases updates using List.reverseRecOn with
  | nil => cases found
  | append_singleton earlier last =>
      simp only [List.reverse_append, List.reverse_singleton, List.singleton_append,
        List.take_succ_cons, List.take_zero, List.map_cons, List.map_nil] at found
      cases found
      exact ⟨last, by simp, rfl⟩

theorem viewsAgree_of_spelled (documented : Documented decoder)
    (spelled : ∀ address, normalizeAddr decoder path = .ok address → SpelledAsQueried table address) :
    ViewsAgree table path where
  history address fromBlock toBlock limit answered := by
    rw [loadUpdates_eq documented (normalized documented answered), cutsHistory_eq documented answered,
      selectByTopic_eq documented (normalized documented answered) (spelled address answered)]
    simp only [Functor.map, Except.map, List.map_take, List.map_reverse, List.filter_map,
      List.map_map, Function.comp_def]
    rfl
  atBlock address block row ticket answered found after := by
    obtain ⟨e, last, rfl⟩ := atBlock_ok documented (spelled address answered) answered found
    refine ⟨e.numeral "feeShare", rfl, rfl, ?_⟩
    have sameUpdates : ((selectByAddress table address).filter fun e =>
        decide (e.position ≤ ticket)) = (selectByAddress table address).filter fun e =>
          decide (e.row.blockNumber ≤ block) := by
      refine List.filter_congr fun e member => ?_
      obtain ⟨stored, columns⟩ := List.mem_filter.mp (mem_orderBy.mp member)
      rw [Bool.and_eq_true, decide_eq_true_eq] at columns
      exact decide_eq_decide.mpr (after e stored columns.1 columns.2)
    rw [feeShareRawAtBlock_ok documented, sameUpdates, last]
    rfl

/-- Each update is reported by both histories, so its topic is the queried one. -/
theorem spelled_of_viewsAgree (documented : Documented decoder) (agree : ViewsAgree table path)
    (answered : normalizeAddr decoder path = .ok address) : SpelledAsQueried table address := by
  have normal := normalized documented answered
  have histories := agree.history address none none table.length answered
  rw [loadUpdates_eq documented normal, cutsHistory_eq documented answered] at histories
  -- the first history selects among the updates of the second
  have selection : selectByTopic table (topicText address) none none =
      (table.filter fun e => e.isUpdate && decide (e.row.toAddress = some address)).filter fun e =>
        decide (e.row.rawEvent.topics[1]? = some (topicText address)) := by
    rw [selectByTopic, List.filter_filter]
    refine List.filter_congr fun e _ => ?_
    rw [Bool.eq_iff_iff]
    simp only [inWindow, Option.all_none, Bool.and_true, Bool.and_eq_true, decide_eq_true_eq]
    exact ⟨fun found => ⟨found.2, found.1, toAddress_of_topic documented normal found.1 found.2⟩,
      fun found => ⟨found.2.1, found.1⟩⟩
  have sameLength := congrArg (fun answer => (Except.toOption answer).map List.length) histories
  simp only [Functor.map, Except.map, Except.toOption, Option.map_some, List.length_map,
    List.length_take, List.length_reverse, (orderBy_perm _ _).length_eq, selection, selectByAddress,
    inWindow, Option.all_none, Bool.and_self, List.filter_true, Option.some.injEq] at sameLength
  set updates := table.filter fun e => e.isUpdate && decide (e.row.toAddress = some address)
    with updates_eq
  have bound : updates.length ≤ table.length := List.length_filter_le _ _
  have all : (updates.filter fun e =>
      decide (e.row.rawEvent.topics[1]? = some (topicText address))).length = updates.length := by
    have fewer := List.length_filter_le (fun e : StoredRow decoder =>
      decide (e.row.rawEvent.topics[1]? = some (topicText address))) updates
    omega
  intro e stored update receiver
  have member : e ∈ updates := List.mem_filter.mpr ⟨stored, by simp [update, receiver]⟩
  exact of_decide_eq_true (List.length_filter_eq_length_iff.mp all e member)

/-- The views of an orchestrator's updates agree exactly when the topics of its updates are spelled
as the queries spell them. -/
theorem views_agree_iff (documented : Documented decoder) (table : List (StoredRow decoder))
    (path : String) : ViewsAgree table path ↔
      ∀ address, normalizeAddr decoder path = .ok address → SpelledAsQueried table address :=
  ⟨fun agree _ answered => spelled_of_viewsAgree documented agree answered,
    viewsAgree_of_spelled documented⟩

end Proofs

/-! ## The payout rollup's own rows -/

namespace StoredRow

/-- The decoded arguments, as the rollups read them. -/
def decodedArguments (e : StoredRow decoder) : Decoded :=
  match e.row.eventName with
  | .EarningsClaimed => .earningsClaimed (e.numeral "rewards") (e.numeral "fees")
      (e.numeral "startRound") (e.numeral "endRound")
  | .NewRound => .newRound (e.numeral "round")
  | .TranscoderUpdate => .transcoderUpdate (e.numeral "rewardCut") (e.numeral "feeShare")
  | .ProposalCreated => .proposalCreated ((e.decodedText "proposalId").getD "")
      ((e.decodedText "proposer").getD "") (e.numeral "voteStart") (e.numeral "voteEnd")
      ((e.decodedText "description").getD "")
  | .ProposalExecuted => .proposalExecuted ((e.decodedText "proposalId").getD "")
  | .VoteCast | .VoteCastWithParams => .vote ((e.decodedText "proposalId").getD "")
      ((e.decodedText "voter").getD "") (e.numeral "support") (e.numeral "weight")
      ((e.decodedText "reason").getD "")
  | _ => .none

/-- The decoder gives each row with an asset an amount. -/
theorem amount_of_asset (e : StoredRow decoder) :
    e.row.asset.isSome → e.row.amountNormalized.isSome := by
  obtain ⟨contract, raw, blockTs, decoded⟩ := e.accepted
  obtain ⟨envelope, event, fields, _, _, made⟩ := Decoder.decodeOne_decoded decoded
  have given := fields.amount_of_asset
  rw [made]
  simp only [Decoder.rowOf]
  cases empty : fields.amountRaw with
  | none =>
      intro named
      rw [empty] at given
      exact absurd (given named) (by decide)
  | some amount => exact fun _ => rfl

/-- The row as the rollups read it; `log_index` is not negative. -/
def toRawEvent (e : StoredRow decoder) : RawEvent where
  txHash := e.row.txHash
  logIndex := e.row.logIndex.toNat
  blockNumber := e.row.blockNumber
  blockHash := e.row.blockHash
  blockTimestamp := e.row.blockTimestamp
  contractName := e.row.contractName
  eventName := e.row.eventName
  asset := e.row.asset
  amountNormalized := e.row.amountNormalized
  isValuable := e.row.isValuable
  fromAddress := e.row.fromAddress
  toAddress := e.row.toAddress
  decoded := e.decodedArguments
  amount_of_asset := e.amount_of_asset
  id := e.id
  finality := e.finality
  isCanonical := e.isCanonical
  finalizedAt := e.finalizedAt

end StoredRow

/-- A position, with a log index that is not negative. -/
theorem position_toRawEvent_le {e : StoredRow decoder} (natural : 0 ≤ e.row.logIndex) {block : ℤ}
    {index : ℕ} : e.toRawEvent.position ≤ toLex (block, index) ↔
      e.position ≤ toLex (block, (index : ℤ)) := by
  simp only [RawEvent.position, StoredRow.position, StoredRow.toRawEvent, Prod.Lex.toLex_le_toLex]
  omega

/-- The share on stored rows is that of the payout rollup's model. -/
theorem feeShareRawAtBlock_eq (documented : Documented decoder) {table : List (StoredRow decoder)}
    (natural : ∀ e ∈ table, 0 ≤ e.row.logIndex) (address : Address) (block : ℤ) (index : ℕ)
    (valuations : Table ValuationKey ValuationRow)
    (classifications : Table Address BroadcasterKind) :
    feeShareRawAtBlock table address (toLex (block, (index : ℤ))) =
      .ok (Rollups.feeShareRawAtBlock
        ⟨table.map StoredRow.toRawEvent, valuations, classifications⟩ address
        (toLex (block, index)) : ℚ) := by
  have updates : Rollups.transcoderUpdates
      ⟨table.map StoredRow.toRawEvent, valuations, classifications⟩ address =
        (selectByAddress table address).map StoredRow.toRawEvent := by
    rw [Rollups.transcoderUpdates, orderBy, List.filter_map, selectByAddress, orderBy,
      List.map_insertionSort (fun a b : StoredRow decoder => a.position ≤ b.position)
        (fun a b : RawEvent => a.position ≤ b.position)]
    · congr 2
      refine List.filter_congr fun e stored => ?_
      rw [Bool.eq_iff_iff]
      simp only [Function.comp_apply, StoredRow.toRawEvent, StoredRow.isUpdate, Bool.and_eq_true]
      constructor
      · rintro ⟨⟨⟨canonical, _⟩, update⟩, receiver⟩
        exact ⟨⟨canonical, update⟩, receiver⟩
      · rintro ⟨⟨canonical, update⟩, receiver⟩
        have isUpdate : e.isUpdate = true := by simp [StoredRow.isUpdate, canonical, update]
        obtain ⟨_, _, _, reads⟩ := readsAs documented isUpdate
        exact ⟨⟨⟨canonical, decide_eq_true reads.contract⟩, update⟩, receiver⟩
    · intro a first b second
      have natural' := natural a (List.mem_filter.mp first).1
      have later := natural b (List.mem_filter.mp second).1
      obtain ⟨index, same⟩ := Int.eq_ofNat_of_zero_le later
      have other : b.position = toLex (b.row.blockNumber, (index : ℤ)) := by
        rw [StoredRow.position, same]
      have image : b.toRawEvent.position = toLex (b.row.blockNumber, index) := by
        rw [RawEvent.position, StoredRow.toRawEvent, same, Int.toNat_natCast]
      rw [other, image, position_toRawEvent_le natural']
  have upTo : ((selectByAddress table address).filter fun e =>
      decide (e.toRawEvent.position ≤ toLex (block, index))) =
        (selectByAddress table address).filter fun e =>
          decide (e.position ≤ toLex (block, (index : ℤ))) := by
    refine List.filter_congr fun e member => ?_
    have stored := (List.mem_filter.mp (mem_orderBy.mp member)).1
    exact decide_eq_decide.mpr (position_toRawEvent_le (natural e stored))
  rw [feeShareRawAtBlock_ok documented, Rollups.feeShareRawAtBlock, Rollups.rawPercentAt,
    takeWhile_le_eq_filter (by exact orderBy_pairwise _ _), updates, List.filter_map]
  simp only [Function.comp_def, upTo, List.getLast?_map]
  cases last : ((selectByAddress table address).filter fun e =>
      decide (e.position ≤ toLex (block, (index : ℤ)))).getLast? with
  | none => simp
  | some e =>
      have selected := List.mem_of_mem_filter (List.mem_of_getLast? last)
      have columns := (Bool.and_eq_true _ _).mp (List.mem_filter.mp (mem_orderBy.mp selected)).2
      have named := (StoredRow.isUpdate_iff.mp columns.1).2
      have share : e.toRawEvent.decoded.feeShare = some (e.numeral "feeShare") := by
        simp only [StoredRow.toRawEvent, StoredRow.decodedArguments, named]
        rfl
      simp [share]

/-! ## A topic in upper case -/

/-- A big-endian word. -/
def wordOf (bytes : List UInt8) : ℕ := bytes.foldl (fun total byte => 256 * total + byte.toNat) 0

/-- Numbers its events, and decodes an indexed address and two words of data. -/
def updateDecoder : Decoder where
  signatureHash _ event := List.replicate 31 0 ++ [UInt8.ofNat event.ctorIdx]
  decodeLogData _ _ logData :=
    match logData.topics[1]? with
    | some topic1 =>
        if logData.data.length = 64 then
          .ok ⟨fun name => wordOf (if name = "rewardCut" then logData.data.take 32
              else logData.data.drop 32), fun _ => hexText (topic1.drop 12), id, fun _ => []⟩
        else .error "buffer overrun"
    | none => .error "missing topic"
  toLowercase s := String.ofList (s.toList.map Char.toLower)

theorem updateDecoder_documented : Documented updateDecoder where
  transcoder := by
    intro logData args decoded
    simp only [updateDecoder] at decoded
    split at decoded
    · next topic1 second =>
        split_ifs at decoded
        cases decoded
        exact ⟨topic1, second, rfl⟩
    · cases decoded
  lower s c member := by
    simp only [updateDecoder, String.toList_ofList, List.mem_map] at member
    obtain ⟨original, _, rfl⟩ := member
    exact Char.isUpper_toLower_eq_false original
  lower_lower s := by
    simp [updateDecoder, Function.comp_def]

/-- An update of the address of forty `a`s, whose topic ends in the given digits; it sets a reward
cut of 10% and a fee share of 40%. -/
def updateLog (digits : List Char) : RawLog where
  address := "0xbm"
  topics := [hexText (updateDecoder.signatureHash .BondingManager .TranscoderUpdate),
    String.ofList ('0' :: 'x' :: List.replicate 24 '0' ++ digits)]
  data := hexText (List.replicate 29 0 ++ [1, 134, 160] ++ List.replicate 29 0 ++ [6, 26, 128])
  blockNumber := "0x7"
  blockHash := "0xb7"
  transactionHash := "0xt7"
  logIndex := "0x0"

/-- The address of such updates. -/
def updatedAddress : Address := String.ofList ('0' :: 'x' :: List.replicate 40 'a')

/-- The row of such an update. -/
def updateRowOf (digits : List Char) : PreparedRow :=
  updateDecoder.rowOf .BondingManager (updateLog digits)
    (updateDecoder.signatureHash .BondingManager .TranscoderUpdate) 7 0 1000 .TranscoderUpdate
    (records none (some updatedAddress) (some [("transcoder", .text updatedAddress),
      ("rewardCut", .text "100000"), ("feeShare", .text "400000")]))

/-- The stored row of such an update. -/
def storedUpdate (digits : List Char) (decodes : updateDecoder.decodeOne .BondingManager
    (updateLog digits) (fun _ => some 1000) = .decoded (updateRowOf digits)) :
    StoredRow updateDecoder where
  id := 1
  row := updateRowOf digits
  finality := .finalized
  isCanonical := true
  finalizedAt := some 0
  accepted := ⟨.BondingManager, updateLog digits, fun _ => some 1000, decodes⟩

def lowerCase : StoredRow updateDecoder := storedUpdate (List.replicate 40 'a') (by decide +kernel)

def upperCase : StoredRow updateDecoder := storedUpdate (List.replicate 40 'A') (by decide +kernel)

theorem updatedAddress_normalized : normalizeAddr updateDecoder updatedAddress = .ok updatedAddress := by
  decide +kernel

theorem views_agree_on_lowerCase : ViewsAgree [lowerCase] updatedAddress :=
  (views_agree_iff updateDecoder_documented [lowerCase] updatedAddress).mpr (by
    intro address answered
    rw [updatedAddress_normalized] at answered
    cases answered
    decide +kernel)

theorem upperCase_readsAs : ReadsAs upperCase updatedAddress 100000 400000 where
  contract := by decide +kernel
  toAddress := by decide +kernel
  decoded := by decide +kernel
  topic := ⟨String.ofList ('0' :: 'x' :: List.replicate 24 '0' ++ List.replicate 40 'A'),
    List.replicate 12 0 ++ List.replicate 20 170, by decide +kernel⟩

/-- An update whose topic was answered in upper case: `cuts-history` reports it and the payouts use
its share, `/params/history` does not. -/
theorem upperCaseTopic_diverges :
    ¬ ViewsAgree [upperCase] updatedAddress ∧
      history [upperCase] updatedAddress none none none = .ok [] ∧
      cutsHistory [upperCase] updatedAddress = .ok [⟨7, 1000000000, 60, 10, 40, 1⟩] ∧
      feeShareRawAtBlock [upperCase] updatedAddress (toLex (8, 0)) = .ok 400000 := by
  have selected : selectByAddress [upperCase] updatedAddress = [upperCase] := by
    have receiver : (upperCase.isUpdate && decide (upperCase.row.toAddress = some updatedAddress)) =
        true := by decide +kernel
    simp [selectByAddress, receiver, orderBy]
  refine ⟨fun agree => ?_, by decide +kernel, ?_, ?_⟩
  · have spelled := spelled_of_viewsAgree updateDecoder_documented agree updatedAddress_normalized
    exact absurd spelled (by decide +kernel)
  · have columns : upperCase.row.blockNumber = 7 ∧ upperCase.row.blockTimestamp = 1000000000 ∧
        upperCase.id = 1 := by decide +kernel
    rw [cutsHistory_eq updateDecoder_documented updatedAddress_normalized, selected]
    simp only [List.map_cons, List.map_nil, TranscoderParamsRow.point, updateRow,
      upperCase_readsAs.numerals, columns, fullPercent, percentDenominator]
    norm_num
  · have before : upperCase.position ≤ toLex (8, 0) := by decide +kernel
    rw [feeShareRawAtBlock_ok updateDecoder_documented, selected]
    simp [before, upperCase_readsAs.numerals]

end ProtocolExplorer.Api.Transcoders
