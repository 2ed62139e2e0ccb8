import ProtocolExplorer.Lib.AnswerCache
import ProtocolExplorer.Lib.Process
import ProtocolExplorer.Rpc.CrossCheck

/-!
# The routes to `rpc_call_cache` as processes

`single_call_cached`, the two `batch_call_cached` and `cross_check_call` look a call up, ask the
providers and store the answer, one statement after another; other tasks run in between.  A
conflicting insert does nothing, so the first answer stays.  `cross_check_call` and
`cross_check_block_hash` ask two providers and record a divergence where these disagree.

What a provider answers may change at any time, and so may the cache-only mode.
-/

set_option autoImplicit false

namespace ProtocolExplorer.Rpc

open ProtocolExplorer.Lib

/-- A row of `rpc_call_cache` with the columns of the second provider. -/
structure StoredRow (Value Hash : Type) extends CacheRow Value Hash where
  crossCheckProvider : Option String
  crossCheckResponseHash : Option Hash
  deriving DecidableEq

/-- What two providers are compared by: the hash of the response or the hash of the block. -/
inductive Compared (Hash : Type) where
  | response (hash : Hash)
  | block (hash : String)
  deriving DecidableEq

/-- A row of `rpc_divergence_failures`. -/
structure DivergenceRow (Value Hash : Type) where
  method : String
  params : Value
  blockNumber : Option ℤ
  providerA : String
  responseABytes : List UInt8
  responseAHash : Compared Hash
  providerB : String
  responseBBytes : List UInt8
  responseBHash : Compared Hash
  deriving DecidableEq

structure RpcDivergenceInfo (Hash : Type) where
  method : String
  block : Option ℤ
  providerA : String
  hashA : Compared Hash
  providerB : String
  hashB : Compared Hash
  deriving DecidableEq

/-- The errors of a cross-check. -/
inductive CrossCheckError (Hash : Type) where
  | core (error : CoreError)
  | rpcDivergence (info : RpcDivergenceInfo Hash)
  deriving DecidableEq

/-- What the JSON of a block header is read for. -/
structure HeaderFormat (Value : Type) where
  /-- `[0x…, false]`. -/
  params : ℕ → Value
  /-- `.get("hash").and_then(as_str).unwrap_or_default()`. -/
  hash : Value → String

/-- The statements of the routes.  `reply` hands the bytes of an outcome to the caller. -/
inductive RpcOp (Value Hash : Type) where
  | get (callHash : Hash)
  | cacheOnlyMode
  | call (provider method : String) (params : Value)
  | callBatch (provider : String) (batch : List (String × Value))
  | store (callHash : Hash) (row : StoredRow Value Hash)
  | recordDivergence (row : DivergenceRow Value Hash)
  | reply (call : CachedCall Value) (responseBytes : List UInt8)

def RpcOp.Answer {Value Hash : Type} : RpcOp Value Hash → Type
  | get _ => Option (StoredRow Value Hash)
  | cacheOnlyMode => Bool
  | call .. => Except CoreError Value
  | callBatch .. => Except CoreError (List (Except CoreError Value))
  | store .. => PUnit
  | recordDivergence _ => PUnit
  | reply .. => PUnit

/-- The tables, the mode, the providers and what callers have been told. -/
structure RpcWorld (Value Hash : Type) where
  rpcCallCache : Table Hash (StoredRow Value Hash)
  rpcDivergenceFailures : List (DivergenceRow Value Hash)
  cacheOnly : Bool
  providers : String → Provider Value
  replies : List (CachedCall Value × List UInt8)

/-- A process that ends with a result. -/
abbrev Route (Value Hash : Type) := Process (RpcOp Value Hash) RpcOp.Answer

variable {Value Hash : Type}

namespace RpcWorld

variable [DecidableEq Hash] (null : Value)

/-- The provider of a name. -/
def provider (w : RpcWorld Value Hash) (name : String) : Provider Value :=
  { w.providers name with name }

/-- One statement. -/
def act (w : RpcWorld Value Hash) : (op : RpcOp Value Hash) → Option (RpcWorld Value Hash × op.Answer)
  | .get callHash => some (w, w.rpcCallCache.lookup callHash)
  | .cacheOnlyMode => some (w, w.cacheOnly)
  | .call name method params => some (w, (w.provider name).call null method params)
  | .callBatch name batch => some (w, (w.provider name).callBatch null batch)
  | .store callHash row =>
      some ({ w with rpcCallCache := Table.insertNew w.rpcCallCache callHash row }, ⟨⟩)
  | .recordDivergence row =>
      some ({ w with rpcDivergenceFailures := w.rpcDivergenceFailures ++ [row] }, ⟨⟩)
  | .reply call responseBytes =>
      some ({ w with replies := w.replies ++ [(call, responseBytes)] }, ⟨⟩)

end RpcWorld

namespace Routes

open Process

variable (codec : Codec Value Hash)

/-- A single statement. -/
def ask (op : RpcOp Value Hash) : Route Value Hash op.Answer := statement op

def get (callHash : Hash) : Route Value Hash (Option (StoredRow Value Hash)) :=
  ask (.get callHash)

def cacheOnlyMode : Route Value Hash Bool := ask .cacheOnlyMode

def callProvider (provider method : String) (params : Value) :
    Route Value Hash (Except CoreError Value) :=
  ask (.call provider method params)

def callBatch (provider : String) (batch : List (String × Value)) :
    Route Value Hash (Except CoreError (List (Except CoreError Value))) :=
  ask (.callBatch provider batch)

def store (callHash : Hash) (row : StoredRow Value Hash) : Route Value Hash PUnit :=
  ask (.store callHash row)

def recordDivergence (row : DivergenceRow Value Hash) : Route Value Hash PUnit :=
  ask (.recordDivergence row)

def reply (call : CachedCall Value) (responseBytes : List UInt8) : Route Value Hash PUnit :=
  ask (.reply call responseBytes)

/-- The row an answer is stored as; the second provider is null without a cross-check. -/
def rowOf (provider : String) (secondProvider : Option String) (call : CachedCall Value)
    (value : Value) : StoredRow Value Hash where
  method := call.method
  params := call.params
  blockNumber := call.blockNumber
  responseBytes := codec.toVec value
  responseHash := codec.sha256 (codec.toVec value)
  provider := provider
  crossCheckProvider := secondProvider
  crossCheckResponseHash := secondProvider.map fun _ => codec.sha256 (codec.toVec value)

/-- The outcome of a call whose row is known. -/
def outcome (call : CachedCall Value) (row : StoredRow Value Hash) : CrossCheckOutcome Hash :=
  codec.hit call row.toCacheRow

/-- The error of a miss in cache-only mode. -/
def missing (provider : String) (call : CachedCall Value) : CoreError :=
  .jsonRpc provider call.method (-32002)
    ("cache-only replay: missing rpc_call_cache row for " ++ call.method)

/-- `single_call_cached`. -/
def singleCallCached (provider : String) (call : CachedCall Value) :
    Route Value Hash (Except CoreError (CrossCheckOutcome Hash)) := do
  match ← get (codec.computeCallHash call) with
  | some row => pure (.ok (outcome codec call row))
  | none =>
      if ← cacheOnlyMode then pure (.error (missing provider call))
      else
        match ← callProvider provider call.method call.params with
        | .error err => pure (.error err)
        | .ok value =>
            store (codec.computeCallHash call) (rowOf codec provider none call value)
            pure (.ok (outcome codec call (rowOf codec provider none call value)))

/-- The row of a divergence on a call. -/
def divergenceOf (a b : String) (call : CachedCall Value) (valueA valueB : Value) :
    DivergenceRow Value Hash where
  method := call.method
  params := call.params
  blockNumber := call.blockNumber
  providerA := a
  responseABytes := codec.toVec valueA
  responseAHash := .response (codec.sha256 (codec.toVec valueA))
  providerB := b
  responseBBytes := codec.toVec valueB
  responseBHash := .response (codec.sha256 (codec.toVec valueB))

/-- What the caller learns of it. -/
def infoOf (row : DivergenceRow Value Hash) : RpcDivergenceInfo Hash :=
  ⟨row.method, row.blockNumber, row.providerA, row.responseAHash, row.providerB,
    row.responseBHash⟩

/-- `cross_check_call`. -/
def crossCheckCall [DecidableEq Hash] (a b : String) (call : CachedCall Value) :
    Route Value Hash (Except (CrossCheckError Hash) (CrossCheckOutcome Hash)) := do
  match ← get (codec.computeCallHash call) with
  | some row => pure (.ok (outcome codec call row))
  | none =>
      if ← cacheOnlyMode then pure (.error (.core (missing a call)))
      else
        match ← callProvider a call.method call.params with
        | .error err => pure (.error (.core err))
        | .ok valueA =>
            match ← callProvider b call.method call.params with
            | .error err => pure (.error (.core err))
            | .ok valueB =>
                if codec.sha256 (codec.toVec valueA) ≠ codec.sha256 (codec.toVec valueB) then
                  recordDivergence (divergenceOf codec a b call valueA valueB)
                  pure (.error (.rpcDivergence
                    (infoOf (divergenceOf codec a b call valueA valueB))))
                else
                  store (codec.computeCallHash call) (rowOf codec a (some b) call valueA)
                  pure (.ok (outcome codec call (rowOf codec a (some b) call valueA)))

/-- The row of a divergence on the hash of a block. -/
def blockDivergenceOf (format : HeaderFormat Value) (a b : String) (block : ℕ)
    (headerA headerB : Value) : DivergenceRow Value Hash where
  method := "eth_getBlockByNumber.hash"
  params := format.params block
  blockNumber := some block
  providerA := a
  responseABytes := codec.toVec headerA
  responseAHash := .block (format.hash headerA)
  providerB := b
  responseBBytes := codec.toVec headerB
  responseBHash := .block (format.hash headerB)

/-- `cross_check_block_hash`; nothing is cached. -/
def crossCheckBlockHash (format : HeaderFormat Value) (a b : String) (block : ℕ) :
    Route Value Hash (Except (CrossCheckError Hash) String) := do
  match ← callProvider a "eth_getBlockByNumber" (format.params block) with
  | .error err => pure (.error (.core err))
  | .ok headerA =>
      match ← callProvider b "eth_getBlockByNumber" (format.params block) with
      | .error err => pure (.error (.core err))
      | .ok headerB =>
          if format.hash headerA = "" ∨ format.hash headerB = "" then
            pure (.error (.core (.jsonRpc (a ++ " or " ++ b) "eth_getBlockByNumber" (-32000)
              ("missing .hash on block " ++ toString block ++ ": a='" ++ format.hash headerA ++
                "' b='" ++ format.hash headerB ++ "'"))))
          else if format.hash headerA ≠ format.hash headerB then
            recordDivergence (blockDivergenceOf codec format a b block headerA headerB)
            pure (.error (.rpcDivergence
              (infoOf (blockDivergenceOf codec format a b block headerA headerB))))
          else pure (.ok (format.hash headerA))

/-! ## Batches -/

/-- Look the calls of a batch up, one after another. -/
def probe : List (CachedCall Value) →
    Route Value Hash (List (CachedCall Value × Option (StoredRow Value Hash)))
  | [] => pure []
  | call :: rest => do
      let found ← get (codec.computeCallHash call)
      let others ← probe rest
      pure ((call, found) :: others)

/-- The calls that were not found, in order. -/
def misses (probed : List (CachedCall Value × Option (StoredRow Value Hash))) :
    List (CachedCall Value) :=
  (probed.filter fun entry => entry.2.isNone).map Prod.fst

/-- The loop over the results of `batch_call_cached` in `cross_check.rs`: an error stays at its
position.  `none` is a position without a result, where the last unwrap panics. -/
def fillMisses (provider : String) :
    List (CachedCall Value × Option (StoredRow Value Hash)) → List (Except CoreError Value) →
      Route Value Hash (Option (List (Except CoreError (CrossCheckOutcome Hash))))
  | [], _ => pure (some [])
  | (call, some row) :: rest, results => do
      let others ← fillMisses provider rest results
      pure (others.map fun outcomes => .ok (outcome codec call row) :: outcomes)
  | (_, none) :: _, [] => pure none
  | (_, none) :: rest, .error err :: results => do
      let others ← fillMisses provider rest results
      pure (others.map fun outcomes => .error err :: outcomes)
  | (call, none) :: rest, .ok value :: results => do
      store (codec.computeCallHash call) (rowOf codec provider none call value)
      let others ← fillMisses provider rest results
      pure (others.map fun outcomes =>
        .ok (outcome codec call (rowOf codec provider none call value)) :: outcomes)

/-- `batch_call_cached` of `cross_check.rs`. -/
def batchCallCached (provider : String) (requests : List (CachedCall Value)) :
    Route Value Hash
      (Except CoreError (Option (List (Except CoreError (CrossCheckOutcome Hash))))) := do
  let probed ← probe codec requests
  match misses probed with
  | [] => (fun filled => .ok filled) <$> fillMisses codec provider probed []
  | firstMiss :: others =>
      if ← cacheOnlyMode then pure (.error (missing provider firstMiss))
      else
        match ← callBatch provider
          ((firstMiss :: others).map fun miss => (miss.method, miss.params)) with
        | .error err => pure (.error err)
        | .ok results => (fun filled => .ok filled) <$> fillMisses codec provider probed results

/-- The loop over the responses of `batch_call_cached` in `multicall.rs`: the first error ends
it. -/
def fillUntilError (provider : String) :
    List (CachedCall Value × Option (StoredRow Value Hash)) → List (Except CoreError Value) →
      Route Value Hash (Except CoreError (Option (List (List UInt8))))
  | [], _ => pure (.ok (some []))
  | (_, some row) :: rest, results => do
      let others ← fillUntilError provider rest results
      pure (others.map fun blobs => blobs.map fun tail => row.responseBytes :: tail)
  | (_, none) :: _, [] => pure (.ok none)
  | (_, none) :: _, .error err :: _ => pure (.error err)
  | (call, none) :: rest, .ok value :: results => do
      store (codec.computeCallHash call) (rowOf codec provider none call value)
      let others ← fillUntilError provider rest results
      pure (others.map fun blobs => blobs.map fun tail => codec.toVec value :: tail)

/-- `batch_call_cached` of `multicall.rs`. -/
def multicallBatchCallCached (provider : String) (calls : List (CachedCall Value)) :
    Route Value Hash (Except CoreError (Option (List (List UInt8)))) := do
  let probed ← probe codec calls
  match misses probed with
  | [] => fillUntilError codec provider probed []
  | firstMiss :: others =>
      let missed := firstMiss :: others
      if ← cacheOnlyMode then
        pure (.error (.jsonRpc provider "batch" (-32002)
          ("cache-only replay: " ++ toString (calls.length - missed.length) ++ " of " ++
            toString calls.length ++ " cached, " ++ toString missed.length ++
            " missing in batch")))
      else
        match ← callBatch provider (missed.map fun miss => (miss.method, miss.params)) with
        | .error err => pure (.error err)
        | .ok responses =>
            if responses.length ≠ missed.length then
              pure (.error (.jsonRpc provider "batch" (-32603)
                ("batch returned " ++ toString responses.length ++ " responses, expected " ++
                  toString missed.length)))
            else fillUntilError codec provider probed responses

end Routes

end ProtocolExplorer.Rpc
