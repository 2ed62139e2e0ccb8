import ProtocolExplorer.Lib.KeyedTable
import ProtocolExplorer.Rpc.Provider

/-!
# Cached calls

`rpc_call_cache` keeps the bytes of every answer under the hash of its call; a row is never
replaced.  `single_call_cached` asks the cache, then the provider; `batch_call_cached` looks
every request up first and sends the misses as one batch.  An error is not cached.

* `singleCallsCached_eq`, `batchCallCached_eq` — what either path returns and leaves in the
  cache, in terms of the provider's answers;
* `batchCallCached_eq_singleCallsCached` — **the two agree, position by position, on the
  outcomes and on the cache**.
-/

set_option autoImplicit false

namespace ProtocolExplorer.Rpc

open ProtocolExplorer.Lib

universe u v

/-- What `serde_json` and `sha2` compute. -/
structure Codec (Value : Type u) (Hash : Type v) where
  null : Value
  /-- `to_vec`, the bytes of `to_string`. -/
  toVec : Value → List UInt8
  sha256 : List UInt8 → Hash

/-- The big-endian bytes of an `i64`. -/
def toBeBytes (n : ℤ) : List UInt8 :=
  (List.range 8).reverse.map fun i => UInt8.ofNat ((n % 2 ^ 64).toNat / 2 ^ (8 * i))

/-- A call: method, parameters and, for a historical call, its block. -/
structure CachedCall (Value : Type u) where
  method : String
  params : Value
  blockNumber : Option ℤ
  deriving DecidableEq

/-- A row of `rpc_call_cache`, keyed by its call hash. -/
structure CacheRow (Value : Type u) (Hash : Type v) where
  method : String
  params : Value
  blockNumber : Option ℤ
  responseBytes : List UInt8
  responseHash : Hash
  provider : String
  deriving DecidableEq

/-- What a cached call returns. -/
structure CrossCheckOutcome (Hash : Type v) where
  callHash : Hash
  responseBytes : List UInt8
  responseHash : Hash
  deriving DecidableEq

/-- `rpc_call_cache`. -/
abbrev CallCache (Value : Type u) (Hash : Type v) := Table Hash (CacheRow Value Hash)

variable {Value : Type u} {Hash : Type v} [DecidableEq Hash]

namespace Codec

variable (codec : Codec Value Hash)

/-- `compute_call_hash`. -/
def computeCallHash (call : CachedCall Value) : Hash :=
  codec.sha256 (call.method.toUTF8.toList ++ [0] ++ codec.toVec call.params ++ [0] ++
    call.blockNumber.elim [] toBeBytes)

/-- The row an answer is stored as. -/
def rowOf (p : Provider Value) (call : CachedCall Value) (value : Value) : CacheRow Value Hash where
  method := call.method
  params := call.params
  blockNumber := call.blockNumber
  responseBytes := codec.toVec value
  responseHash := codec.sha256 (codec.toVec value)
  provider := p.name

/-- The outcome of a call whose row is known. -/
def hit (call : CachedCall Value) (row : CacheRow Value Hash) : CrossCheckOutcome Hash :=
  ⟨codec.computeCallHash call, row.responseBytes, row.responseHash⟩

/-- `cache::store`. -/
def store (p : Provider Value) (call : CachedCall Value) (value : Value)
    (cache : CallCache Value Hash) : CallCache Value Hash :=
  cache.insertNew (codec.computeCallHash call) (codec.rowOf p call value)

/-- The error of a miss in cache-only mode. -/
def missing (p : Provider Value) (call : CachedCall Value) : CoreError :=
  .jsonRpc p.name call.method (-32002)
    ("cache-only replay: missing rpc_call_cache row for " ++ call.method)

/-- `single_call_cached`. -/
def singleCallCached (cacheOnly : Bool) (p : Provider Value) (call : CachedCall Value)
    (cache : CallCache Value Hash) :
    CallCache Value Hash × Except CoreError (CrossCheckOutcome Hash) :=
  match cache.lookup (codec.computeCallHash call) with
  | some row => (cache, .ok (codec.hit call row))
  | none =>
      if cacheOnly then (cache, .error (missing p call))
      else
        match p.call codec.null call.method call.params with
        | .error err => (cache, .error err)
        | .ok value => (codec.store p call value cache, .ok (codec.hit call (codec.rowOf p call value)))

/-- Single calls in order, each with its outcome. -/
def singleCallsCached (cacheOnly : Bool) (p : Provider Value) :
    List (CachedCall Value) → CallCache Value Hash →
      CallCache Value Hash × List (Except CoreError (CrossCheckOutcome Hash))
  | [], cache => (cache, [])
  | call :: rest, cache =>
      let first := codec.singleCallCached cacheOnly p call cache
      let others := singleCallsCached cacheOnly p rest first.1
      (others.1, first.2 :: others.2)

/-- The requests that miss, with their positions. -/
def missIndices (requests : List (CachedCall Value)) (cache : CallCache Value Hash) :
    List (CachedCall Value × ℕ) :=
  requests.zipIdx.filter fun (call, _) => (cache.lookup (codec.computeCallHash call)).isNone

/-- The body of the loop over the batch results: store the answer, fill the position. -/
def fillMiss (p : Provider Value)
    (filled : CallCache Value Hash × List (Option (Except CoreError (CrossCheckOutcome Hash))))
    (answered : (CachedCall Value × ℕ) × Except CoreError Value) :
    CallCache Value Hash × List (Option (Except CoreError (CrossCheckOutcome Hash))) :=
  match answered with
  | ((call, index), .ok value) =>
      (codec.store p call value filled.1,
        filled.2.set index (some (.ok (codec.hit call (codec.rowOf p call value)))))
  | ((_, index), .error err) => (filled.1, filled.2.set index (some (.error err)))

/-- Send the misses as one batch, unless there are none. -/
def answerMisses (cacheOnly : Bool) (p : Provider Value) (misses : List (CachedCall Value × ℕ))
    (cache : CallCache Value Hash)
    (outcomes : List (Option (Except CoreError (CrossCheckOutcome Hash)))) : CallCache Value Hash ×
      Except CoreError (List (Option (Except CoreError (CrossCheckOutcome Hash)))) :=
  match misses with
  | [] => (cache, .ok outcomes)
  | (firstMiss, _) :: _ =>
      if cacheOnly then (cache, .error (missing p firstMiss))
      else
        match p.callBatch codec.null (misses.map fun miss => (miss.1.method, miss.1.params)) with
        | .error err => (cache, .error err)
        | .ok results =>
            let filled := (misses.zip results).foldl (codec.fillMiss p) (cache, outcomes)
            (filled.1, .ok filled.2)

/-- `batch_call_cached`; an inner `none` is the panic of the last unwrap. -/
def batchCallCached (cacheOnly : Bool) (p : Provider Value) (requests : List (CachedCall Value))
    (cache : CallCache Value Hash) : CallCache Value Hash ×
      Except CoreError (Option (List (Except CoreError (CrossCheckOutcome Hash)))) :=
  if requests.isEmpty then (cache, .ok (some []))
  else
    let outcomes := requests.map fun call =>
      (cache.lookup (codec.computeCallHash call)).map fun row => .ok (codec.hit call row)
    let answered := codec.answerMisses cacheOnly p (codec.missIndices requests cache) cache outcomes
    (answered.1, answered.2.map fun slots => slots.mapM id)

/-! ## In terms of the answers -/

variable (p : Provider Value) (answer : String → Value → Except JsonRpcErrorBody Value)

/-- The outcome of a call, given what the cache holds. -/
def outcomeOf (cache : CallCache Value Hash) (call : CachedCall Value) :
    Except CoreError (CrossCheckOutcome Hash) :=
  match cache.lookup (codec.computeCallHash call) with
  | some row => .ok (codec.hit call row)
  | none => (p.answered answer call.method call.params).map fun value =>
      codec.hit call (codec.rowOf p call value)

/-- Store the answer of a call. -/
def storeAnswer (cache : CallCache Value Hash) (call : CachedCall Value) : CallCache Value Hash :=
  match p.answered answer call.method call.params with
  | .ok value => codec.store p call value cache
  | .error _ => cache

section Laws

variable {codec p answer} {cache : CallCache Value Hash} {requests : List (CachedCall Value)}

/-- Storing the answer of a call that is cached changes nothing. -/
theorem storeAnswer_of_hit {call : CachedCall Value}
    (present : (cache.lookup (codec.computeCallHash call)).isSome) :
    codec.storeAnswer p answer cache call = cache := by
  obtain ⟨row, found⟩ := Option.isSome_iff_exists.mp present
  unfold storeAnswer
  split
  · exact Table.insertNew_of_lookup found _
  · rfl

/-- A cached row stays. -/
theorem lookup_storeAnswer_of_lookup {call : CachedCall Value} {hash : Hash}
    {row : CacheRow Value Hash} (found : cache.lookup hash = some row) :
    (codec.storeAnswer p answer cache call).lookup hash = some row := by
  unfold storeAnswer
  split
  · rw [store, Table.insertNew, Table.lookup_upsert]
    split
    · next same => rw [← same, found, Option.getD_some]
    · exact found
  · exact found

/-- Storing the answer of one call does not change the outcome of another. -/
theorem outcomeOf_storeAnswer {call other : CachedCall Value}
    (distinct : codec.computeCallHash call = codec.computeCallHash other → call = other) :
    codec.outcomeOf p answer (codec.storeAnswer p answer cache call) other =
      codec.outcomeOf p answer cache other := by
  cases found : cache.lookup (codec.computeCallHash other) with
  | some row => simp only [outcomeOf, lookup_storeAnswer_of_lookup found, found]
  | none =>
      unfold storeAnswer
      cases served : p.answered answer call.method call.params with
      | error err => rfl
      | ok value =>
          by_cases same : codec.computeCallHash call = codec.computeCallHash other
          · obtain rfl := distinct same
            simp only [outcomeOf, store, Table.insertNew, Table.lookup_upsert_self, found,
              Option.getD_none, served]
            rfl
          · simp only [outcomeOf, store, Table.insertNew,
              Table.lookup_upsert_of_ne (Ne.symm same), found]

/-- One call, in terms of the answers. -/
theorem singleCallCached_eq (serves : p.Serves codec.null answer) (call : CachedCall Value) :
    codec.singleCallCached false p call cache =
      (codec.storeAnswer p answer cache call, codec.outcomeOf p answer cache call) := by
  unfold singleCallCached
  cases found : cache.lookup (codec.computeCallHash call) with
  | some row =>
      rw [storeAnswer_of_hit (by rw [found]; rfl)]
      simp only [outcomeOf, found]
  | none =>
      rw [Provider.call_of_serves serves]
      cases served : p.answered answer call.method call.params with
      | error err => simp [storeAnswer, outcomeOf, found, served, Except.map]
      | ok value => simp [storeAnswer, outcomeOf, found, served, Except.map]

/-- Single calls in order, in terms of the answers. -/
theorem singleCallsCached_eq (serves : p.Serves codec.null answer)
    (distinct : ∀ call ∈ requests, ∀ other ∈ requests,
      codec.computeCallHash call = codec.computeCallHash other → call = other) :
    codec.singleCallsCached false p requests cache =
      (requests.foldl (codec.storeAnswer p answer) cache,
        requests.map (codec.outcomeOf p answer cache)) := by
  induction requests generalizing cache with
  | nil => rfl
  | cons call rest inductionHypothesis =>
      have head := List.mem_cons_self (a := call) (l := rest)
      have rest_distinct := fun a memberA b memberB =>
        distinct a (List.mem_cons_of_mem call memberA) b (List.mem_cons_of_mem call memberB)
      have unchanged : rest.map (codec.outcomeOf p answer (codec.storeAnswer p answer cache call)) =
          rest.map (codec.outcomeOf p answer cache) :=
        List.map_congr_left fun other member =>
          outcomeOf_storeAnswer (distinct call head other (List.mem_cons_of_mem call member))
      rw [singleCallsCached, singleCallCached_eq serves, inductionHypothesis rest_distinct,
        unchanged]
      rfl

/-- Storing the answers of the misses stores the answers of all. -/
theorem foldl_storeAnswer_filter {hits : CallCache Value Hash}
    (kept : ∀ hash, (hits.lookup hash).isSome → (cache.lookup hash).isSome) :
    (requests.filter fun call => (hits.lookup (codec.computeCallHash call)).isNone).foldl
        (codec.storeAnswer p answer) cache =
      requests.foldl (codec.storeAnswer p answer) cache := by
  induction requests generalizing cache with
  | nil => rfl
  | cons call rest inductionHypothesis =>
      have keptNext : ∀ hash, (hits.lookup hash).isSome →
          ((codec.storeAnswer p answer cache call).lookup hash).isSome := by
        intro hash hit
        obtain ⟨row, found⟩ := Option.isSome_iff_exists.mp (kept hash hit)
        rw [lookup_storeAnswer_of_lookup found]
        rfl
      cases found : hits.lookup (codec.computeCallHash call) with
      | none =>
          rw [List.filter_cons_of_pos (by rw [found]; rfl), List.foldl_cons, List.foldl_cons]
          exact inductionHypothesis keptNext
      | some row =>
          have present := kept _ (by rw [found]; rfl)
          rw [List.filter_cons_of_neg (by rw [found]; exact Bool.false_ne_true), List.foldl_cons,
            storeAnswer_of_hit present]
          exact inductionHypothesis kept

/-- The loop over the batch results, in terms of the answers. -/
theorem foldl_fillMiss {misses : List (CachedCall Value × ℕ)}
    {slots : List (Option (Except CoreError (CrossCheckOutcome Hash)))} :
    (misses.zip (misses.map fun miss => p.answered answer miss.1.method miss.1.params)).foldl
        (codec.fillMiss p) (cache, slots) =
      ((misses.map Prod.fst).foldl (codec.storeAnswer p answer) cache,
        writeAll (misses.map fun miss => (miss.2, some ((p.answered answer miss.1.method
          miss.1.params).map fun value => codec.hit miss.1 (codec.rowOf p miss.1 value)))) slots) := by
  induction misses generalizing cache slots with
  | nil => rfl
  | cons miss rest inductionHypothesis =>
      obtain ⟨call, index⟩ := miss
      rw [List.map_cons, List.zip_cons_cons, List.foldl_cons, List.map_cons, List.foldl_cons,
        List.map_cons, writeAll, List.foldl_cons]
      cases served : p.answered answer call.method call.params with
      | ok value =>
          have stored : codec.storeAnswer p answer cache call = codec.store p call value cache := by
            rw [storeAnswer, served]
          rw [stored]
          exact inductionHypothesis
      | error err =>
          have stored : codec.storeAnswer p answer cache call = cache := by
            rw [storeAnswer, served]
          rw [stored]
          exact inductionHypothesis

/-- What a batch of misses stores and fills. -/
theorem answerMisses_eq (serves : p.Serves codec.null answer)
    (misses : List (CachedCall Value × ℕ))
    (slots : List (Option (Except CoreError (CrossCheckOutcome Hash)))) :
    codec.answerMisses false p misses cache slots =
      ((misses.map Prod.fst).foldl (codec.storeAnswer p answer) cache,
        .ok (writeAll (misses.map fun miss => (miss.2, some ((p.answered answer miss.1.method
          miss.1.params).map fun value => codec.hit miss.1 (codec.rowOf p miss.1 value))))
            slots)) := by
  cases misses with
  | nil => rfl
  | cons first others =>
      have answers := Provider.callBatch_of_serves serves
        ((first :: others).map fun miss => (miss.1.method, miss.1.params))
      rw [List.map_map] at answers
      rw [answerMisses, if_neg Bool.false_ne_true, answers]
      have filled := @foldl_fillMiss _ _ _ codec p answer cache (first :: others) slots
      exact congrArg (fun result => (result.1, Except.ok result.2)) filled

variable (codec p answer cache requests)

/-- Filled slots hold the outcomes. -/
theorem writeAll_missIndices :
    writeAll ((codec.missIndices requests cache).map fun miss => (miss.2, some ((p.answered answer
        miss.1.method miss.1.params).map fun value =>
          codec.hit miss.1 (codec.rowOf p miss.1 value))))
      (requests.map fun call =>
        (cache.lookup (codec.computeCallHash call)).map fun row => .ok (codec.hit call row)) =
      (requests.map (codec.outcomeOf p answer cache)).map some := by
  rw [List.map_map]
  refine writeAll_eq_of_agrees (by simp) ?_ ?_
  · intro write written value wanted
    obtain ⟨⟨call, index⟩, miss, rfl⟩ := List.mem_map.mp written
    obtain ⟨listed, absent⟩ := List.mem_filter.mp miss
    rw [List.getElem?_map, List.mem_zipIdx_iff_getElem?.mp listed] at wanted
    cases wanted
    have uncached := Option.isNone_iff_eq_none.mp absent
    simp only [Function.comp_apply, outcomeOf, uncached]
  · intro position value wanted
    rw [List.getElem?_map] at wanted
    obtain ⟨call, placed, rfl⟩ := Option.map_eq_some_iff.mp wanted
    cases found : cache.lookup (codec.computeCallHash call) with
    | some row =>
        refine Or.inl ?_
        rw [List.getElem?_map, placed]
        simp only [Option.map_some, Function.comp_apply, found, outcomeOf]
    | none =>
        have miss : (call, position) ∈ codec.missIndices requests cache :=
          List.mem_filter.mpr ⟨List.mem_zipIdx_iff_getElem?.mpr placed,
            Option.isNone_iff_eq_none.mpr found⟩
        exact Or.inr ⟨_, List.mem_map_of_mem miss, rfl⟩

theorem map_fst_missIndices : (codec.missIndices requests cache).map Prod.fst =
    requests.filter fun call => (cache.lookup (codec.computeCallHash call)).isNone := by
  conv_rhs => rw [← List.zipIdx_map_fst 0 requests]
  rw [List.filter_map]
  rfl

/-- Full slots unwrap. -/
theorem mapM_id_map_some {α : Type*} (values : List α) :
    (values.map some).mapM id = some values := by
  induction values with
  | nil => rfl
  | cons head rest inductionHypothesis => simp [List.mapM_cons, inductionHypothesis]

/-- A batch, in terms of the answers. -/
theorem batchCallCached_eq (serves : p.Serves codec.null answer) :
    codec.batchCallCached false p requests cache =
      (requests.foldl (codec.storeAnswer p answer) cache,
        .ok (some (requests.map (codec.outcomeOf p answer cache)))) := by
  unfold batchCallCached
  split
  · next empty =>
      rw [List.isEmpty_iff.mp empty]
      rfl
  · dsimp only
    rw [answerMisses_eq serves, writeAll_missIndices, map_fst_missIndices,
      foldl_storeAnswer_filter fun _ found => found]
    exact congrArg (fun outcomes => (_, Except.ok outcomes)) (mapM_id_map_some _)

end Laws

/-- **A batch returns position by position what single calls in order return, and leaves the
same cache.** -/
theorem batchCallCached_eq_singleCallsCached (codec : Codec Value Hash) (p : Provider Value)
    (answer : String → Value → Except JsonRpcErrorBody Value) (requests : List (CachedCall Value))
    (cache : CallCache Value Hash) (serves : p.Serves codec.null answer)
    (distinct : ∀ call ∈ requests, ∀ other ∈ requests,
      codec.computeCallHash call = codec.computeCallHash other → call = other) :
    codec.batchCallCached false p requests cache =
      ((codec.singleCallsCached false p requests cache).1,
        .ok (some (codec.singleCallsCached false p requests cache).2)) := by
  rw [batchCallCached_eq codec p answer cache requests serves, singleCallsCached_eq serves distinct]

/-! ## A batch with a hit, a duplicate and an error -/

/-- Numbers as JSON values, hashed by their own bytes. -/
def numberCodec : Codec ℕ (List UInt8) := ⟨0, fun n => [UInt8.ofNat n], id⟩

/-- Doubles its parameter, except for 7. -/
def doubling (_ : String) (n : ℕ) : Except JsonRpcErrorBody ℕ :=
  if n = 7 then .error ⟨-32000, "execution reverted"⟩ else .ok (2 * n)

def mixedBatch : List (CachedCall ℕ) :=
  [⟨"eth_call", 1, none⟩, ⟨"eth_call", 2, some 9⟩, ⟨"eth_call", 7, none⟩, ⟨"eth_call", 2, some 9⟩,
    ⟨"eth_call", 1, none⟩]

def archive : Provider ℕ := Provider.answering "archive" doubling

/-- The cache already holds the answer of the first request. -/
def warmCache : CallCache ℕ (List UInt8) :=
  numberCodec.store archive ⟨"eth_call", 1, none⟩ 2 ∅

/-- The batch and the single calls agree. -/
theorem mixedBatch_agrees :
    numberCodec.batchCallCached false archive mixedBatch warmCache =
      ((numberCodec.singleCallsCached false archive mixedBatch warmCache).1,
        .ok (some (numberCodec.singleCallsCached false archive mixedBatch warmCache).2)) :=
  batchCallCached_eq_singleCallsCached numberCodec archive doubling mixedBatch warmCache
    (Provider.serves_answering _ _ _) (by decide +kernel)

end Codec

end ProtocolExplorer.Rpc
