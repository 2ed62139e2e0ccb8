import ProtocolExplorer.Store.RawEvent

/-!
# Decoding a log

`eth_getLogs` answers with logs whose fields are all strings.  `decode_one` parses the
envelope, looks the first topic up among the contract's events and decodes the arguments.
A failure carries whether it is strict: a strict one halts the chunk, any other log is
written to `decode_failures` (`DeadLetterRow.fromRaw`).

Signature hashes and the decoding of arguments come from generated code, and the lower case
of a string from the standard library: they are a `Decoder`.

* `decodeOne_congr` — `decode_one` reads the timestamp of the log's own block only;
* `decodeOne_of_envelope`, `decodeOne_decoded` — what it does with a log whose topics, data
  and numbers parse, and that no other log is decoded;
* `decodeOne_args` — the arguments a decoded event is kept with;
* `flatMap_byteText` — hexadecimal digits in lower case are the text of the bytes they stand for;
* `deadLetter_ok` — which logs can be dead letters.
-/

set_option autoImplicit false

namespace ProtocolExplorer.Indexer.Wire

open ProtocolExplorer.Store

/-! ## Hexadecimal text -/

/-- `trim_start_matches("0x")`: every leading `0x`. -/
def trimHexPrefix : List Char → List Char
  | '0' :: 'x' :: rest => trimHexPrefix rest
  | chars => chars

/-- `to_digit(16)`. -/
def hexDigit (c : Char) : Option ℕ :=
  if '0' ≤ c ∧ c ≤ '9' then some (c.toNat - '0'.toNat)
  else if 'a' ≤ c ∧ c ≤ 'f' then some (c.toNat - 'a'.toNat + 10)
  else if 'A' ≤ c ∧ c ≤ 'F' then some (c.toNat - 'A'.toNat + 10)
  else none

inductive ParseIntError where
  | empty
  | invalidDigit
  | posOverflow
  | negOverflow
  deriving DecidableEq, Repr

def ParseIntError.message : ParseIntError → String
  | empty => "cannot parse integer from empty string"
  | invalidDigit => "invalid digit found in string"
  | posOverflow => "number too large to fit in target type"
  | negOverflow => "number too small to fit in target type"

/-- The digits of a number of at most `bound`. -/
def accumulate (bound : ℕ) (overflow : ParseIntError) : List Char → ℕ → Except ParseIntError ℕ
  | [], total => .ok total
  | c :: rest, total =>
      match hexDigit c with
      | none => .error .invalidDigit
      | some digit =>
          if bound < 16 * total + digit then .error overflow
          else accumulate bound overflow rest (16 * total + digit)

/-- `from_str_radix(_, 16)` of an unsigned type. -/
def unsignedFromRadix (bound : ℕ) : List Char → Except ParseIntError ℕ
  | [] => .error .empty
  | ['+'] => .error .invalidDigit
  | '+' :: digits => accumulate bound .posOverflow digits 0
  | digits => accumulate bound .posOverflow digits 0

/-- `from_str_radix(_, 16)` of `i64`. -/
def signedFromRadix : List Char → Except ParseIntError ℤ
  | [] => .error .empty
  | ['+'] => .error .invalidDigit
  | ['-'] => .error .invalidDigit
  | '+' :: digits => (accumulate (2 ^ 63 - 1) .posOverflow digits 0).map Int.ofNat
  | '-' :: digits => (accumulate (2 ^ 63) .negOverflow digits 0).map fun n => -(n : ℤ)
  | digits => (accumulate (2 ^ 63 - 1) .posOverflow digits 0).map Int.ofNat

/-- `u64_from_hex`. -/
def u64FromHex (s : String) : Except ParseIntError ℕ :=
  unsignedFromRadix (2 ^ 64 - 1) (trimHexPrefix s.toList)

/-- `u32_from_hex`. -/
def u32FromHex (s : String) : Except ParseIntError ℕ :=
  unsignedFromRadix (2 ^ 32 - 1) (trimHexPrefix s.toList)

theorem accumulate_le {bound : ℕ} {overflow : ParseIntError} {digits : List Char} {total n : ℕ}
    (inside : total ≤ bound) (parsed : accumulate bound overflow digits total = .ok n) :
    n ≤ bound := by
  induction digits generalizing total with
  | nil =>
      cases parsed
      exact inside
  | cons c rest inductionHypothesis =>
      unfold accumulate at parsed
      split at parsed
      · cases parsed
      · split at parsed
        · cases parsed
        · next fits => exact inductionHypothesis (not_lt.mp fits) parsed

theorem unsignedFromRadix_le {bound n : ℕ} {digits : List Char}
    (parsed : unsignedFromRadix bound digits = .ok n) : n ≤ bound := by
  unfold unsignedFromRadix at parsed
  split at parsed
  · cases parsed
  · cases parsed
  · exact accumulate_le (Nat.zero_le bound) parsed
  · exact accumulate_le (Nat.zero_le bound) parsed

/-- `i64_from_hex`. -/
def i64FromHex (s : String) : Except ParseIntError ℤ := signedFromRadix (trimHexPrefix s.toList)

/-- `alloy::hex::decode`, after the prefix. -/
def hexDecode : List Char → Option (List UInt8)
  | [] => some []
  | [_] => none
  | high :: low :: rest => do
      let h ← hexDigit high
      let l ← hexDigit low
      let bytes ← hexDecode rest
      return UInt8.ofNat (16 * h + l) :: bytes

/-- The bytes of a hash. -/
abbrev B256 := List UInt8

/-- `FixedBytes::<32>::from_str`, after the prefix. -/
def b256FromStr (s : String) : Option B256 :=
  (hexDecode (trimHexPrefix s.toList)).filter fun bytes => bytes.length = 32

/-- The lower-case digits of a byte. -/
def byteText (byte : UInt8) : List Char :=
  [Nat.digitChar (byte.toNat / 16), Nat.digitChar (byte.toNat % 16)]

/-- `format!("0x{:x}", _)`. -/
def hexText (bytes : List UInt8) : String := String.ofList ('0' :: 'x' :: bytes.flatMap byteText)

/-! ### The lower-case spelling -/

/-- The lower-case spelling of a digit. -/
theorem digitChar_of_hexDigit {c : Char} {digit : ℕ} (read : hexDigit c = some digit)
    (lower : c.isUpper = false) : digit < 16 ∧ Nat.digitChar digit = c := by
  unfold hexDigit at read
  have code : ∀ n : ℕ, c.toNat = n → c = Char.ofNat n := by
    rintro n rfl
    exact (Char.ofNat_toNat c).symm
  split_ifs at read with decimal small capital
  · obtain ⟨low, high⟩ := decimal
    have low' : 48 ≤ c.toNat := low
    have high' : c.toNat ≤ 57 := high
    cases read
    have zero : '0'.toNat = 48 := rfl
    rw [zero]
    generalize same : c.toNat = n at low' high'
    rw [code n same]
    interval_cases n <;> decide
  · obtain ⟨low, high⟩ := small
    have low' : 97 ≤ c.toNat := low
    have high' : c.toNat ≤ 102 := high
    cases read
    have letterA : 'a'.toNat = 97 := rfl
    rw [letterA]
    generalize same : c.toNat = n at low' high'
    rw [code n same]
    interval_cases n <;> decide
  · exfalso
    obtain ⟨low, high⟩ := capital
    have upper : c.isUpper = true := by
      simp only [Char.isUpper, decide_eq_true_eq]
      exact ⟨low, le_trans high (by decide)⟩
    rw [upper] at lower
    cases lower

/-- Digits in lower case are the text of the bytes they decode to. -/
theorem flatMap_byteText {digits : List Char} {bytes : List UInt8}
    (decoded : hexDecode digits = some bytes) (lower : ∀ c ∈ digits, c.isUpper = false) :
    bytes.flatMap byteText = digits := by
  induction digits using hexDecode.induct generalizing bytes with
  | case1 =>
      cases decoded
      rfl
  | case2 => cases decoded
  | case3 high low rest inductionHypothesis =>
      simp only [hexDecode, Option.bind_eq_bind, Option.bind_eq_some_iff, Option.pure_def,
        Option.some.injEq] at decoded
      obtain ⟨h, readHigh, l, readLow, tail, decodedTail, rfl⟩ := decoded
      obtain ⟨smallHigh, highText⟩ := digitChar_of_hexDigit readHigh (lower high (by simp))
      obtain ⟨smallLow, lowText⟩ := digitChar_of_hexDigit readLow (lower low (by simp))
      have value : (UInt8.ofNat (16 * h + l)).toNat = 16 * h + l := by
        rw [UInt8.toNat_ofNat']
        omega
      have upperHalf : (16 * h + l) / 16 = h := by omega
      have lowerHalf : (16 * h + l) % 16 = l := by omega
      rw [List.flatMap_cons, inductionHypothesis decodedTail
        (fun c member => lower c (by simp [member])), byteText, value, upperHalf, lowerHalf,
        highText, lowText]
      rfl

theorem length_of_hexDecode {digits : List Char} {bytes : List UInt8}
    (decoded : hexDecode digits = some bytes) : digits.length = 2 * bytes.length := by
  induction digits using hexDecode.induct generalizing bytes with
  | case1 =>
      cases decoded
      rfl
  | case2 => cases decoded
  | case3 high low rest inductionHypothesis =>
      simp only [hexDecode, Option.bind_eq_bind, Option.bind_eq_some_iff, Option.pure_def,
        Option.some.injEq] at decoded
      obtain ⟨_, _, _, _, tail, decodedTail, rfl⟩ := decoded
      have shorter := inductionHypothesis decodedTail
      simp only [List.length_cons]
      omega

/-- Leading zeros are leading zero bytes. -/
theorem hexDecode_zeros (zeros : ℕ) (digits : List Char) :
    hexDecode (List.replicate (2 * zeros) '0' ++ digits) =
      (hexDecode digits).map (List.replicate zeros 0 ++ ·) := by
  induction zeros with
  | zero => simp
  | succ zeros inductionHypothesis =>
      have zero : hexDigit '0' = some 0 := by decide
      rw [Nat.mul_succ]
      simp only [List.replicate_succ, List.cons_append, hexDecode, zero, inductionHypothesis]
      cases hexDecode digits <;> rfl

theorem trimHexPrefix_suffix (chars : List Char) : trimHexPrefix chars <:+ chars := by
  induction chars using trimHexPrefix.induct with
  | case1 rest inductionHypothesis =>
      rw [trimHexPrefix]
      exact inductionHypothesis.trans (List.suffix_append ['0', 'x'] rest)
  | case2 chars noPrefix => rw [trimHexPrefix.eq_2 _ noPrefix]

/-- Trimming shortens a text that has the prefix. -/
theorem trimHexPrefix_eq_self {chars : List Char}
    (kept : String.utf8Len chars ≤ String.utf8Len (trimHexPrefix chars)) :
    trimHexPrefix chars = chars := by
  cases chars using trimHexPrefix.fun_cases with
  | case1 rest =>
      have shorter := String.utf8Len_le_of_suffix (trimHexPrefix_suffix rest)
      have zero : '0'.utf8Size = 1 := rfl
      rw [trimHexPrefix] at kept
      simp only [String.utf8Len_cons] at kept
      omega
  | case2 chars noPrefix => exact trimHexPrefix.eq_2 _ noPrefix

theorem utf8Len_flatMap_byteText (bytes : List UInt8) :
    String.utf8Len (bytes.flatMap byteText) = 2 * bytes.length := by
  have two : ∀ byte : UInt8, String.utf8Len (byteText byte) = 2 := by decide +kernel
  induction bytes with
  | nil => rfl
  | cons byte rest inductionHypothesis =>
      rw [List.flatMap_cons, String.utf8Len_append, two, inductionHypothesis, List.length_cons]
      omega

theorem utf8Len_of_hexDecode {digits : List Char} {bytes : List UInt8}
    (decoded : hexDecode digits = some bytes) (lower : ∀ c ∈ digits, c.isUpper = false) :
    String.utf8Len digits = digits.length := by
  rw [length_of_hexDecode decoded, ← utf8Len_flatMap_byteText, flatMap_byteText decoded lower]

/-! ## Logs and events -/

/-- A log as it is answered. -/
structure RawLog where
  address : String
  topics : List String
  data : String
  blockNumber : String
  blockHash : String
  transactionHash : String
  logIndex : String
  deriving DecidableEq

/-- Topics and data of a log; there are at most four topics. -/
structure LogData where
  topics : List B256
  data : List UInt8
  atMostFour : topics.length ≤ 4
  deriving DecidableEq

/-- `build_log_data`. -/
def buildLogData (raw : RawLog) : Except String LogData :=
  match raw.topics.mapM b256FromStr with
  | none => .error "decoding topic bytes"
  | some topics =>
      match hexDecode (trimHexPrefix raw.data.toList) with
      | none => .error "decoding data hex"
      | some data =>
          if fits : topics.length ≤ 4 then .ok ⟨topics, data, fits⟩
          else .error "malformed LogData (topics/data shape)"

/-- The decoded arguments of an event, by name. -/
structure EventArgs where
  uint : String → ℕ
  address : String → Address
  text : String → String
  bytes : String → List UInt8

/-- What the generated event types and the standard library compute. -/
structure Decoder where
  signatureHash : ContractKind → EventName → B256
  decodeLogData : ContractKind → EventName → LogData → Except String EventArgs
  toLowercase : String → String

/-- `name`. -/
def contractText : ContractKind → String
  | .BondingManager => "BondingManager"
  | .TicketBroker => "TicketBroker"
  | .LivepeerToken => "LivepeerToken"
  | .RoundsManager => "RoundsManager"
  | .Governor => "Governor"

/-- The events of a contract, in the order `decode_one` compares the first topic with. -/
def eventsOf : ContractKind → List EventName
  | .BondingManager =>
      [.Reward, .Bond, .Unbond, .Rebond, .WithdrawStake, .TransferBond, .EarningsClaimed,
        .WithdrawFees, .TranscoderActivated, .TranscoderDeactivated, .TranscoderUpdate,
        .TranscoderSlashed, .ParameterUpdate, .SetController]
  | .TicketBroker =>
      [.WinningTicketRedeemed, .WinningTicketTransfer, .DepositFunded, .ReserveFunded, .Withdrawal,
        .Unlock, .ReserveClaimed, .UnlockCancelled, .ParameterUpdate, .SetController]
  | .LivepeerToken => [.Transfer, .Mint, .Burn, .Approval]
  | .RoundsManager => [.NewRound, .ParameterUpdate, .SetController]
  | .Governor =>
      [.ProposalCreated, .ProposalExecuted, .VoteCast, .VoteCastWithParams, .ProposalCanceled,
        .ProposalQueued, .ParameterUpdate, .SetController]

/-- The critical events of a contract. -/
def strictEvents : ContractKind → List EventName
  | .BondingManager =>
      [.Bond, .Unbond, .Rebond, .WithdrawStake, .TransferBond, .Reward, .EarningsClaimed,
        .TranscoderSlashed]
  | .TicketBroker => [.WinningTicketRedeemed, .WinningTicketTransfer]
  | .LivepeerToken => [.Transfer]
  | .RoundsManager => []
  | .Governor => []

/-! ## Rows -/

/-- A value under `raw_event.decoded`. -/
inductive DecodedValue where
  | text (s : String)
  | number (n : ℕ)
  deriving DecidableEq, Repr

/-- The columns an event fills. -/
structure EventFields where
  asset : Option Asset
  amountRaw : Option ℕ
  isValuable : Bool
  fromAddress : Option Address
  toAddress : Option Address
  decoded : Option (List (String × DecodedValue))
  amount_of_asset : asset.isSome → amountRaw.isSome

/-- An event that moves an amount. -/
def transfers (asset : Asset) (amount : ℕ) (fromAddress toAddress : Option Address) : EventFields :=
  ⟨some asset, some amount, true, fromAddress, toAddress, none, fun _ => rfl⟩

/-- An event without an amount. -/
def records (fromAddress toAddress : Option Address)
    (decoded : Option (List (String × DecodedValue))) : EventFields :=
  ⟨none, none, false, fromAddress, toAddress, decoded, fun absurd => absurd⟩

section Fields

variable (args : EventArgs)

/-- An argument printed with `to_string`. -/
def EventArgs.shown (name : String) : String × DecodedValue := (name, .text (toString (args.uint name)))

def EventArgs.shownAddress (name : String) : String × DecodedValue := (name, .text (args.address name))

def EventArgs.shownText (name : String) : String × DecodedValue := (name, .text (args.text name))

/-- The branches of `decode_one` for events that decode. -/
def fieldsOf : EventName → EventFields
  | .Reward => transfers .LPT (args.uint "amount") none (args.address "transcoder")
  | .Bond => transfers .LPT (args.uint "additionalAmount") (args.address "delegator")
      (args.address "newDelegate")
  | .Unbond | .Rebond => transfers .LPT (args.uint "amount") (args.address "delegator")
      (args.address "delegate")
  | .WithdrawStake => transfers .LPT (args.uint "amount") (args.address "delegator") none
  | .TransferBond => transfers .LPT (args.uint "amount") (args.address "oldDelegator")
      (args.address "newDelegator")
  | .EarningsClaimed =>
      { records (args.address "delegator") (args.address "delegate") (some [args.shown "rewards",
          args.shown "fees", args.shown "startRound", args.shown "endRound"]) with
        isValuable := true }
  | .WithdrawFees => transfers .ETH (args.uint "amount") (args.address "delegator")
      (args.address "recipient")
  | .TranscoderActivated => records none (args.address "transcoder")
      (some [args.shownAddress "transcoder", args.shown "activationRound"])
  | .TranscoderDeactivated => records none (args.address "transcoder")
      (some [args.shownAddress "transcoder", args.shown "deactivationRound"])
  | .TranscoderUpdate => records none (args.address "transcoder")
      (some [args.shownAddress "transcoder", args.shown "rewardCut", args.shown "feeShare"])
  | .TranscoderSlashed =>
      { transfers .LPT (args.uint "penalty") (args.address "transcoder") (args.address "finder") with
        decoded := some [args.shownAddress "transcoder", args.shownAddress "finder",
          args.shown "penalty", args.shown "finderReward"] }
  | .ParameterUpdate => records none none (some [args.shownText "param"])
  | .SetController => records none none (some [args.shownAddress "controller"])
  | .WinningTicketRedeemed => transfers .ETH (args.uint "faceValue") (args.address "sender")
      (args.address "recipient")
  | .WinningTicketTransfer => transfers .ETH (args.uint "amount") (args.address "sender")
      (args.address "recipient")
  | .DepositFunded => transfers .ETH (args.uint "amount") (args.address "sender") none
  | .ReserveFunded => transfers .ETH (args.uint "amount") (args.address "reserveHolder") none
  | .Withdrawal =>
      -- `saturating_add` of two `uint256`
      transfers .ETH (min (args.uint "deposit" + args.uint "reserve") (2 ^ 256 - 1))
        (args.address "sender") none
  | .Unlock | .UnlockCancelled => records (args.address "sender") none none
  | .ReserveClaimed =>
      { transfers .ETH (args.uint "amount") (args.address "reserveHolder")
          (args.address "claimant") with isValuable := false }
  | .Transfer => transfers .LPT (args.uint "value") (args.address "from") (args.address "to")
  | .Mint => transfers .LPT (args.uint "amount") none (args.address "to")
  | .Burn => transfers .LPT (args.uint "value") (args.address "burner") none
  | .Approval => records none none none
  | .NewRound => records none none (some [args.shown "round",
      ("blockHash", .text (hexText (args.bytes "blockHash")))])
  | .ProposalCreated => records none none (some [args.shown "proposalId",
      args.shownAddress "proposer", args.shown "voteStart", args.shown "voteEnd",
      args.shownText "description"])
  | .ProposalExecuted | .ProposalCanceled => records none none (some [args.shown "proposalId"])
  | .VoteCast => records (args.address "voter") none (some [args.shownAddress "voter",
      args.shown "proposalId", ("support", .number (args.uint "support")), args.shown "weight",
      args.shownText "reason"])
  | .VoteCastWithParams => records (args.address "voter") none (some [args.shownAddress "voter",
      args.shown "proposalId", ("support", .number (args.uint "support")), args.shown "weight",
      args.shownText "reason", ("params", .text (hexText (args.bytes "params")))])
  | .ProposalQueued => records none none (some [args.shown "proposalId", args.shown "eta"])

end Fields

/-- A decoded log, with every column of the insert but the ABI hash. -/
structure PreparedRow where
  txHash : TxHash
  logIndex : ℤ
  blockNumber : ℤ
  blockHash : BlockHash
  blockTimestamp : Timestamp
  contractAddress : Address
  contractName : ContractKind
  eventName : EventName
  eventSignature : String
  asset : Option Asset
  amountRaw : Option ℕ
  amountNormalized : Option Numeric
  isValuable : Bool
  fromAddress : Option Address
  toAddress : Option Address
  rawEvent : RawLog
  decoded : Option (List (String × DecodedValue))
  deriving DecidableEq

/-- A log that could not be decoded. -/
structure DeadLetterRow where
  blockNumber : ℤ
  blockHash : BlockHash
  txHash : TxHash
  logIndex : ℤ
  contractAddress : Address
  topics : List String
  data : List UInt8
  attemptedAbiHash : String
  errorMessage : String
  deriving DecidableEq

/-- `as i32`. -/
@[irreducible] def asI32 (n : ℕ) : ℤ := Int.bmod n (2 ^ 32)

/-- `as i64`. -/
@[irreducible] def asI64 (n : ℕ) : ℤ := Int.bmod n (2 ^ 64)

/-- The seconds `DateTime::from_timestamp` accepts. -/
def InTimestampRange (seconds : ℤ) : Prop := -8334601228800 ≤ seconds ∧ seconds ≤ 8210266876799

instance (seconds : ℤ) : Decidable (InTimestampRange seconds) :=
  inferInstanceAs (Decidable (_ ∧ _))

/-- How a failure names its event. -/
inductive FailedEvent where
  | none
  | unknown
  | envelope
  | named (event : EventName)
  deriving DecidableEq, Repr

inductive DispatchOutcome where
  | decoded (row : PreparedRow)
  | decodeFailed (event : FailedEvent) (topic0 : B256) (isStrict : Bool) (error : String)
  | unknownTopic0 (topic0 : B256)
  deriving DecidableEq

/-! ## The decoder -/

namespace Decoder

variable (decoder : Decoder) (contract : ContractKind)

/-- `is_strict_event`. -/
def isStrictEvent (topic0 : B256) : Bool :=
  (strictEvents contract).any fun event => decide (topic0 = decoder.signatureHash contract event)

/-- The event a first topic belongs to. -/
def eventOf (topic0 : B256) : Option EventName :=
  (eventsOf contract).find? fun event => decide (topic0 = decoder.signatureHash contract event)

/-- The row of a decoded event. -/
def rowOf (raw : RawLog) (topic0 : B256) (blockNumber logIndex : ℕ) (seconds : ℤ)
    (event : EventName) (fields : EventFields) : PreparedRow where
  txHash := decoder.toLowercase raw.transactionHash
  logIndex := asI32 logIndex
  blockNumber := asI64 blockNumber
  blockHash := decoder.toLowercase raw.blockHash
  blockTimestamp := toTimestamp seconds
  contractAddress := decoder.toLowercase raw.address
  contractName := contract
  eventName := event
  eventSignature := hexText topic0
  asset := fields.asset
  amountRaw := fields.amountRaw
  -- both assets have 18 decimals
  amountNormalized := fields.amountRaw.map fun amount => ⟨amount⟩
  isValuable := fields.isValuable
  fromAddress := fields.fromAddress
  toAddress := fields.toAddress
  rawEvent := raw
  decoded := fields.decoded

/-- The dispatch by first topic, once the envelope is parsed. -/
def dispatch (raw : RawLog) (topic0 : B256) (logData : LogData) (blockNumber logIndex : ℕ)
    (seconds : ℤ) : DispatchOutcome :=
  match decoder.eventOf contract topic0 with
  | none => .unknownTopic0 topic0
  | some event =>
      -- an `Approval` is kept without its arguments
      if event = .Approval then
        .decoded (decoder.rowOf contract raw topic0 blockNumber logIndex seconds .Approval
          (records none none none))
      else
        match decoder.decodeLogData contract event logData with
        | .error err => .decodeFailed (.named event) topic0 (decoder.isStrictEvent contract topic0) err
        | .ok args => .decoded (decoder.rowOf contract raw topic0 blockNumber logIndex seconds event
            (fieldsOf args event))

/-- The first topic of a log. -/
def topic0Of (raw : RawLog) : Option B256 := raw.topics.head?.bind b256FromStr

/-- `decode_one`. -/
def decodeOne (raw : RawLog) (blockTs : ℕ → Option ℤ) : DispatchOutcome :=
  match topic0Of raw with
  | none => .decodeFailed .none (List.replicate 32 0) false "log missing or malformed topic0"
  | some topic0 =>
  match buildLogData raw with
  | .error err => .decodeFailed .unknown topic0 (decoder.isStrictEvent contract topic0) err
  | .ok logData =>
  match u64FromHex raw.blockNumber with
  | .error err => .decodeFailed .envelope topic0 false ("bad block_number: " ++ err.message)
  | .ok blockNumber =>
  match u32FromHex raw.logIndex with
  | .error err => .decodeFailed .envelope topic0 false ("bad log_index: " ++ err.message)
  | .ok logIndex =>
  match blockTs blockNumber with
  | none => .decodeFailed .envelope topic0 false
      ("missing block timestamp for block " ++ toString blockNumber)
  | some seconds =>
      if InTimestampRange seconds then
        decoder.dispatch contract raw topic0 logData blockNumber logIndex seconds
      else .decodeFailed .envelope topic0 false ("invalid timestamp: " ++ toString seconds)

/-- `DeadLetterRow::from_raw`. -/
def deadLetter (raw : RawLog) (abiHash errorMessage : String) : Except String DeadLetterRow :=
  match u64FromHex raw.blockNumber, u32FromHex raw.logIndex with
  | .error err, _ => .error err.message
  | .ok _, .error err => .error err.message
  | .ok blockNumber, .ok logIndex =>
      match hexDecode (trimHexPrefix raw.data.toList) with
      | none => .error "decoding data hex for dead-letter"
      | some data => .ok
          { blockNumber := asI64 blockNumber
            blockHash := decoder.toLowercase raw.blockHash
            txHash := decoder.toLowercase raw.transactionHash
            logIndex := asI32 logIndex
            contractAddress := decoder.toLowercase raw.address
            topics := raw.topics.map decoder.toLowercase
            data
            attemptedAbiHash := abiHash
            errorMessage }

variable {decoder contract} {raw : RawLog} {blockTs other : ℕ → Option ℤ}

/-- Only the timestamp of the log's own block is read. -/
theorem decodeOne_congr
    (agree : ∀ number, u64FromHex raw.blockNumber = .ok number → blockTs number = other number) :
    decoder.decodeOne contract raw blockTs = decoder.decodeOne contract raw other := by
  unfold decodeOne
  cases parsed : u64FromHex raw.blockNumber with
  | error err => rfl
  | ok number =>
      rw [parsed] at agree
      simp only [agree number rfl]

/-- The parts of a log whose envelope parses. -/
structure Envelope where
  topic0 : B256
  logData : LogData
  blockNumber : ℕ
  logIndex : ℕ
  seconds : ℤ

/-- The envelope of a log parses; the timestamp may be out of range. -/
structure HasEnvelope (raw : RawLog) (blockTs : ℕ → Option ℤ) (envelope : Envelope) : Prop where
  topic0 : topic0Of raw = some envelope.topic0
  logData : buildLogData raw = .ok envelope.logData
  blockNumber : u64FromHex raw.blockNumber = .ok envelope.blockNumber
  logIndex : u32FromHex raw.logIndex = .ok envelope.logIndex
  seconds : blockTs envelope.blockNumber = some envelope.seconds

theorem decodeOne_of_envelope {envelope : Envelope} (parsed : HasEnvelope raw blockTs envelope) :
    decoder.decodeOne contract raw blockTs =
      if InTimestampRange envelope.seconds then
        decoder.dispatch contract raw envelope.topic0 envelope.logData envelope.blockNumber
          envelope.logIndex envelope.seconds
      else .decodeFailed .envelope envelope.topic0 false
        ("invalid timestamp: " ++ toString envelope.seconds) := by
  simp only [decodeOne, parsed.topic0, parsed.logData, parsed.blockNumber, parsed.logIndex,
    parsed.seconds]

/-- A dispatched row has the envelope of its log. -/
theorem dispatch_decoded {topic0 : B256} {logData : LogData} {blockNumber logIndex : ℕ}
    {seconds : ℤ} {row : PreparedRow} (decoded : decoder.dispatch contract raw topic0 logData
      blockNumber logIndex seconds = .decoded row) :
    ∃ event fields,
      row = decoder.rowOf contract raw topic0 blockNumber logIndex seconds event fields := by
  unfold dispatch at decoded
  cases found : decoder.eventOf contract topic0 with
  | none =>
      rw [found] at decoded
      cases decoded
  | some event =>
      rw [found] at decoded
      simp only at decoded
      split at decoded
      · cases decoded
        exact ⟨_, _, rfl⟩
      · split at decoded
        · cases decoded
        · cases decoded
          exact ⟨_, _, rfl⟩

/-- The arguments of an event that is kept with them. -/
theorem dispatch_args {topic0 : B256} {logData : LogData} {blockNumber logIndex : ℕ}
    {seconds : ℤ} {row : PreparedRow} (decoded : decoder.dispatch contract raw topic0 logData
      blockNumber logIndex seconds = .decoded row) (kept : row.eventName ≠ .Approval) :
    row.eventName ∈ eventsOf contract ∧
      ∃ args, decoder.decodeLogData contract row.eventName logData = .ok args ∧
        row = decoder.rowOf contract raw topic0 blockNumber logIndex seconds row.eventName
          (fieldsOf args row.eventName) := by
  unfold dispatch at decoded
  cases found : decoder.eventOf contract topic0 with
  | none =>
      rw [found] at decoded
      cases decoded
  | some event =>
      rw [found] at decoded
      simp only at decoded
      split_ifs at decoded with approval
      · cases decoded
        exact absurd rfl kept
      · cases computed : decoder.decodeLogData contract event logData with
        | error err =>
            rw [computed] at decoded
            cases decoded
        | ok args =>
            rw [computed] at decoded
            cases decoded
            exact ⟨List.mem_of_find?_eq_some found, args, computed, rfl⟩

/-- A decoded log has an envelope, with a timestamp in range. -/
theorem decodeOne_decoded {row : PreparedRow}
    (decoded : decoder.decodeOne contract raw blockTs = .decoded row) :
    ∃ envelope event fields, HasEnvelope raw blockTs envelope ∧ InTimestampRange envelope.seconds ∧
      row = decoder.rowOf contract raw envelope.topic0 envelope.blockNumber envelope.logIndex
        envelope.seconds event fields := by
  cases topic : topic0Of raw with
  | none => simp [decodeOne, topic] at decoded
  | some topic0 =>
  cases built : buildLogData raw with
  | error err => simp [decodeOne, topic, built] at decoded
  | ok logData =>
  cases number : u64FromHex raw.blockNumber with
  | error err => simp [decodeOne, topic, built, number] at decoded
  | ok blockNumber =>
  cases index : u32FromHex raw.logIndex with
  | error err => simp [decodeOne, topic, built, number, index] at decoded
  | ok logIndex =>
  cases time : blockTs blockNumber with
  | none => simp [decodeOne, topic, built, number, index, time] at decoded
  | some seconds =>
      have parsed : HasEnvelope raw blockTs ⟨topic0, logData, blockNumber, logIndex, seconds⟩ :=
        ⟨topic, built, number, index, time⟩
      rw [decodeOne_of_envelope parsed] at decoded
      split at decoded
      · next inRange =>
          obtain ⟨event, fields, same⟩ := dispatch_decoded decoded
          exact ⟨_, event, fields, parsed, inRange, same⟩
      · cases decoded

/-- A decoded event that is kept with its arguments. -/
theorem decodeOne_args {row : PreparedRow}
    (decoded : decoder.decodeOne contract raw blockTs = .decoded row)
    (kept : row.eventName ≠ .Approval) :
    ∃ envelope args, HasEnvelope raw blockTs envelope ∧ row.eventName ∈ eventsOf contract ∧
      decoder.decodeLogData contract row.eventName envelope.logData = .ok args ∧
      row = decoder.rowOf contract raw envelope.topic0 envelope.blockNumber envelope.logIndex
        envelope.seconds row.eventName (fieldsOf args row.eventName) := by
  obtain ⟨envelope, event, fields, parsed, inRange, same⟩ := decodeOne_decoded decoded
  rw [decodeOne_of_envelope parsed, if_pos inRange] at decoded
  obtain ⟨known, args, computed, made⟩ := dispatch_args decoded kept
  exact ⟨envelope, args, parsed, known, computed, made⟩

/-- A log can be a dead letter when its numbers and data parse. -/
theorem deadLetter_ok {abiHash errorMessage : String} {dead : DeadLetterRow}
    (made : decoder.deadLetter raw abiHash errorMessage = .ok dead) :
    ∃ blockNumber logIndex data, u64FromHex raw.blockNumber = .ok blockNumber ∧
      u32FromHex raw.logIndex = .ok logIndex ∧ hexDecode (trimHexPrefix raw.data.toList) = some data ∧
      dead =
        { blockNumber := asI64 blockNumber
          blockHash := decoder.toLowercase raw.blockHash
          txHash := decoder.toLowercase raw.transactionHash
          logIndex := asI32 logIndex
          contractAddress := decoder.toLowercase raw.address
          topics := raw.topics.map decoder.toLowercase
          data
          attemptedAbiHash := abiHash
          errorMessage } := by
  unfold deadLetter at made
  cases number : u64FromHex raw.blockNumber with
  | error err => simp [number] at made
  | ok blockNumber =>
  cases index : u32FromHex raw.logIndex with
  | error err => simp [number, index] at made
  | ok logIndex =>
  cases bytes : hexDecode (trimHexPrefix raw.data.toList) with
  | none => simp [number, index, bytes] at made
  | some data =>
      simp only [number, index, bytes, Except.ok.injEq] at made
      exact ⟨blockNumber, logIndex, data, rfl, rfl, rfl, made.symm⟩

end Decoder

end ProtocolExplorer.Indexer.Wire
