import ProtocolExplorer.Lib.OrderedBatch
import ProtocolExplorer.Lib.RetryRounds
import ProtocolExplorer.Rpc.BatchReplies
import ProtocolExplorer.Staker.Pending

/-!
# Reads that are asked again

An archive that lags behind answers a read with a "layer stale" error.  Both batched readers of the
staker ask these reads again, at most three times: `resolve_exact_misses_batched` counts its
retries down and sends chunks, `batch_with_retries` counts its attempts up and fills a slot for
every request.  Any other error ends the read.

The batches go through `batch_call_cached`; the provider may answer every batch differently.

* `batchCall_cases` — a batch call fails, or has a result for every request;
* `resolveRounds_eq`, `attempts_eq` — both loops are rounds of `gather`;
* `layerStale_retries` — **within the allowed rounds both end, with one value for each request or
  with an error, and with an error exactly after an error that is not asked again**.
-/

set_option autoImplicit false

namespace ProtocolExplorer.Rpc

/-- The `Display` of an error. -/
def CoreError.display : CoreError → String
  | .db source => "database error: " ++ source
  | .http provider source => "HTTP error talking to " ++ provider ++ ": " ++ source
  | .jsonRpc provider method code message => "JSON-RPC error from " ++ provider ++ " on " ++
      method ++ ": code=" ++ toString code ++ " message=" ++ message

end ProtocolExplorer.Rpc

namespace ProtocolExplorer.Staker

open ProtocolExplorer.Lib
open ProtocolExplorer.Store
open ProtocolExplorer.Rpc

universe u v w x

variable {Value : Type u} {Hash : Type v} [DecidableEq Hash]

/-! ## Batch calls -/

abbrev Bytes := List UInt8

/-- The cached rows, and how many batches have been called. -/
structure RpcWorld (Value : Type u) (Hash : Type v) where
  cache : CallCache Value Hash
  called : ℕ

/-- How a reader ends without a result. -/
inductive Stop where
  /-- It returns an error. -/
  | failed (message : String)
  /-- An `expect`, an index or a subtraction panics. -/
  | panicked
  /-- The loop is not over. -/
  | unfinished
  deriving DecidableEq

/-- What the readers rest on. -/
structure RpcClient (Value : Type u) (Hash : Type v) where
  codec : Codec Value Hash
  cacheOnly : Bool
  /-- The provider as it answers the `n`-th batch. -/
  providers : ℕ → Provider Value
  /-- The ABI decoder of the answer to `getDelegator`. -/
  decodeGetDelegator : Bytes → Except String DelegatorState

variable (client : RpcClient Value Hash)

/-- `batch_call_cached`, with the bytes of the outcomes. -/
def RpcClient.batchCall (world : RpcWorld Value Hash) (requests : List (CachedCall Value)) :
    RpcWorld Value Hash × Except CoreError (Option (List (Except CoreError Bytes))) :=
  let called := client.codec.batchCallCached client.cacheOnly (client.providers world.called)
    requests world.cache
  (⟨called.1, world.called + 1⟩, called.2.map fun results => results.map fun outcomes =>
    outcomes.map fun outcome => outcome.map CrossCheckOutcome.responseBytes)

/-- `is_layer_stale_error`. -/
def isLayerStaleError (text : String) : Bool :=
  decide ("layer stale".toList <:+: text.toLower.toList)

/-- `EXACT_BATCH_SIZE`. -/
def exactBatchSize : ℕ := 250

/-- `EXACT_LAYER_STALE_RETRIES`. -/
def exactLayerStaleRetries : ℕ := 3

/-- `LAYER_STALE_RETRIES`. -/
def layerStaleRetries : ℕ := 3

/-! ## Counting down -/

/-- A read of `getDelegator` that is not cached. -/
structure ExactStakeRpcCall (Value : Type u) (Hash : Type v) where
  delegatorLower : Address
  blockNumber : ℤ
  stateHash : Hash
  stateParams : Value

/-- The stake a row is overwritten with. -/
structure ExactStakeUpdate where
  delegator : Address
  blockNumber : ℤ
  bondedPrincipal : Numeric
  delegateAddress : Address
  deriving DecidableEq

section Resolve

/-- The request of a call. -/
def ExactStakeRpcCall.request (call : ExactStakeRpcCall Value Hash) : CachedCall Value :=
  ⟨"eth_call", call.stateParams, some call.blockNumber⟩

/-- The update of a call's row with what the contract returns. -/
def exactStakeUpdate (call : ExactStakeRpcCall Value Hash) (state : DelegatorState) :
    ExactStakeUpdate :=
  ⟨call.delegatorLower, call.blockNumber, u256ToDecimal state.bondedAmount, state.delegateAddress⟩

/-- The updates and the reads to ask again. -/
abbrev Resolved (Value : Type u) (Hash : Type v) :=
  List ExactStakeUpdate × List (ExactStakeRpcCall Value Hash)

/-- The match on the result of a call. -/
def resolveResult (retriesRemaining : ℕ) (resolved : Resolved Value Hash)
    (answered : ExactStakeRpcCall Value Hash × Except CoreError Bytes) :
    Except Stop (Resolved Value Hash) :=
  match answered.2 with
  | .ok bytes =>
      match client.decodeGetDelegator bytes with
      | .ok state => .ok (resolved.1 ++ [exactStakeUpdate answered.1 state], resolved.2)
      | .error message => .error (.failed message)
  | .error err =>
      if 0 < retriesRemaining ∧ isLayerStaleError err.display = true then
        .ok (resolved.1, resolved.2 ++ [answered.1])
      else .error (.failed err.display)

/-- The loop over the chunks of a round. -/
def resolveChunks (retriesRemaining : ℕ) : List (List (ExactStakeRpcCall Value Hash)) →
    RpcWorld Value Hash → Resolved Value Hash →
      RpcWorld Value Hash × Except Stop (Resolved Value Hash)
  | [], world, resolved => (world, .ok resolved)
  | chunk :: rest, world, resolved =>
      match client.batchCall world (chunk.map ExactStakeRpcCall.request) with
      | (world, .error err) => (world, .error (.failed err.display))
      | (world, .ok none) => (world, .error .panicked)
      | (world, .ok (some results)) =>
          match (chunk.zip results).foldlM (resolveResult client retriesRemaining) resolved with
          | .error stop => (world, .error stop)
          | .ok resolved => resolveChunks retriesRemaining rest world resolved

/-- The rounds; the fuel bounds them. -/
def resolveRounds : ℕ → ℕ → List (ExactStakeRpcCall Value Hash) → RpcWorld Value Hash →
    List ExactStakeUpdate → RpcWorld Value Hash × Except Stop (List ExactStakeUpdate)
  | 0, _, _, world, _ => (world, .error .unfinished)
  | fuel + 1, retriesRemaining, pendingMisses, world, updates =>
      match resolveChunks client retriesRemaining (pendingMisses.toChunks exactBatchSize) world
        (updates, []) with
      | (world, .error stop) => (world, .error stop)
      | (world, .ok (updates, retryMisses)) =>
          if retryMisses.isEmpty then (world, .ok updates)
          -- `retries_remaining -= 1`
          else if retriesRemaining = 0 then (world, .error .panicked)
          else resolveRounds fuel (retriesRemaining - 1) retryMisses world updates

/-- `resolve_exact_misses_batched`. -/
def resolveExactMissesBatched (misses : List (ExactStakeRpcCall Value Hash)) (retriesLeft : ℕ)
    (world : RpcWorld Value Hash) :
    RpcWorld Value Hash × Except Stop (List ExactStakeUpdate) :=
  resolveRounds client (retriesLeft + 1) retriesLeft misses world []

end Resolve

/-! ## Counting up -/

section Attempts

/-- The responses and the slots to ask again. -/
abbrev Filled := List (Option Bytes) × List ℕ

/-- The match on the result for a slot. -/
def fillSlot (filled : Filled) (answered : ℕ × Except CoreError Bytes) : Except Stop Filled :=
  match answered.2 with
  | .ok bytes => .ok (filled.1.set answered.1 (some bytes), filled.2)
  | .error err =>
      if isLayerStaleError err.display then .ok (filled.1, filled.2 ++ [answered.1])
      else .error (.failed err.display)

/-- The error of the last attempt. -/
def stillLayerStale (calls : ℕ) : String :=
  "round refresh: " ++ toString calls ++ " calls still layer-stale after " ++
    toString layerStaleRetries ++ " retries"

/-- The loop over the attempts. -/
def attempts (requests : List (CachedCall Value)) : List ℕ → RpcWorld Value Hash →
    List (Option Bytes) → List ℕ → RpcWorld Value Hash × Except Stop (List (Option Bytes))
  | [], world, responses, _ => (world, .ok responses)
  | attempt :: rest, world, responses, pendingIdx =>
      match pendingIdx.mapM fun i => requests[i]? with
      | none => (world, .error .panicked)
      | some batch =>
          match client.batchCall world batch with
          | (world, .error err) => (world, .error (.failed err.display))
          | (world, .ok none) => (world, .error .panicked)
          | (world, .ok (some results)) =>
              match (pendingIdx.zip results).foldlM fillSlot (responses, []) with
              | .error stop => (world, .error stop)
              | .ok (responses, retryIdx) =>
                  if retryIdx.isEmpty then (world, .ok responses)
                  else if attempt = layerStaleRetries then
                    (world, .error (.failed (stillLayerStale retryIdx.length)))
                  else attempts requests rest world responses retryIdx

/-- `batch_with_retries`. -/
def batchWithRetries (requests : List (CachedCall Value)) (world : RpcWorld Value Hash) :
    RpcWorld Value Hash × Except Stop (List Bytes) :=
  match attempts client requests (List.range (layerStaleRetries + 1)) world
    (List.replicate requests.length none) (List.range requests.length) with
  | (world, .error stop) => (world, .error stop)
  | (world, .ok responses) =>
      (world, match responses.mapM id with
        | some bytes => .ok bytes
        | none => .error .panicked)

end Attempts

/-! ## Rounds of replies -/

section Rounds

variable {Item : Type w} {Answer : Type x}

/-- What a result means for its read. -/
def replyOf (decode : Bytes → Except String Answer) :
    Except CoreError Bytes → Reply Answer
  | .ok bytes =>
      match decode bytes with
      | .ok answer => .value answer
      | .error _ => .failed
  | .error err => if isLayerStaleError err.display then .again else .failed

/-- The replies to a batch; a batch that fails fails its first read. -/
def repliesOf (decode : Bytes → Except String Answer) (items : List Item) :
    Except CoreError (Option (List (Except CoreError Bytes))) → Round Item Answer
  | .ok (some results) =>
      (items.zip results).map fun answered => (answered.1, replyOf decode answered.2)
  | _ => items.head?.toList.map fun item => (item, .failed)

/-- Ask items in one batch. -/
def askBatch (decode : Bytes → Except String Answer) (request : Item → CachedCall Value)
    (world : RpcWorld Value Hash) (items : List Item) :
    RpcWorld Value Hash × Round Item Answer :=
  let called := client.batchCall world (items.map request)
  (called.1, repliesOf decode items called.2)

/-- Ask chunk after chunk, until a reply ends the rounds. -/
def askChunks (decode : Bytes → Except String Answer) (request : Item → CachedCall Value)
    (left : ℕ) : List (List Item) → RpcWorld Value Hash → RpcWorld Value Hash × Round Item Answer
  | [], world => (world, [])
  | chunk :: rest, world =>
      let asked := askBatch client decode request world chunk
      if asked.2.stops left then asked
      else
        let others := askChunks decode request left rest asked.1
        (others.1, asked.2 ++ others.2)

/-- A round of `resolve_exact_misses_batched`. -/
def askMisses : Ask (RpcWorld Value Hash) (ExactStakeRpcCall Value Hash) DelegatorState :=
  fun left world misses => askChunks client client.decodeGetDelegator ExactStakeRpcCall.request left
    (misses.toChunks exactBatchSize) world

/-- A round of `batch_with_retries`; a slot is a request with its position. -/
def askSlots : Ask (RpcWorld Value Hash) (CachedCall Value × ℕ) Bytes :=
  fun _ world slots => askBatch client Except.ok Prod.fst world slots

end Rounds

/-! ## One batch -/

section OneBatch

variable {client} {world world' : RpcWorld Value Hash}

/-- A batch call fails on some requests, or has a result for every request. -/
theorem batchCall_cases {requests : List (CachedCall Value)}
    {answered : Except CoreError (Option (List (Except CoreError Bytes)))}
    (called : client.batchCall world requests = (world', answered)) :
    (∃ err, answered = .error err ∧ requests ≠ []) ∨
      ∃ results, answered = .ok (some results) ∧ results.length = requests.length := by
  unfold RpcClient.batchCall at called
  rcases stored : client.codec.batchCallCached client.cacheOnly (client.providers world.called)
    requests world.cache with ⟨cache, outcomes⟩
  rw [stored] at called
  cases called
  rcases Codec.batchCallCached_cases stored with ⟨err, rfl, _⟩ | ⟨results, rfl, replies⟩
  · refine Or.inl ⟨err, rfl, ?_⟩
    rintro rfl
    cases stored
  · exact Or.inr ⟨_, rfl, (List.length_map _).trans replies.length⟩

variable {Item : Type w} {Answer : Type x} {decode : Bytes → Except String Answer}
  {request : Item → CachedCall Value} {items : List Item}

/-- A batch asks its items in order, and all of them unless it fails. -/
theorem map_fst_askBatch (left : ℕ) (world : RpcWorld Value Hash) (items : List Item) :
    (askBatch client decode request world items).2.map Prod.fst <+: items ∧
      ((askBatch client decode request world items).2.stops left = false →
        (askBatch client decode request world items).2.map Prod.fst = items) := by
  rcases called : client.batchCall world (items.map request) with ⟨world', answered⟩
  unfold askBatch
  rw [called]
  rcases batchCall_cases called with ⟨err, rfl, some_⟩ | ⟨results, rfl, sameLength⟩
  · cases items with
    | nil => exact absurd rfl some_
    | cons item rest =>
        refine ⟨List.prefix_append [item] rest, fun continues => ?_⟩
        exact absurd (List.mem_singleton_self _) ((Round.stops_eq_false.mp continues).1 item)
  · rw [List.length_map] at sameLength
    have all : (repliesOf decode items (.ok (some results))).map Prod.fst = items := by
      rw [repliesOf, List.map_map]
      exact List.map_fst_zip (le_of_eq sameLength.symm)
    refine ⟨?_, fun _ => all⟩
    show (repliesOf decode items (.ok (some results))).map Prod.fst <+: items
    rw [all]

theorem map_fst_askChunks (left : ℕ) (chunks : List (List Item))
    (world : RpcWorld Value Hash) :
    (askChunks client decode request left chunks world).2.map Prod.fst <+: chunks.flatten ∧
      ((askChunks client decode request left chunks world).2.stops left = false →
        (askChunks client decode request left chunks world).2.map Prod.fst = chunks.flatten) := by
  induction chunks generalizing world with
  | nil => exact ⟨List.prefix_rfl, fun _ => rfl⟩
  | cons chunk rest inductionHypothesis =>
      obtain ⟨asked, complete⟩ := @map_fst_askBatch _ _ _ client _ _ decode request left world chunk
      rw [askChunks, List.flatten_cons]
      dsimp only
      split_ifs with ends
      · refine ⟨asked.trans (List.prefix_append _ _), fun continues => ?_⟩
        exact absurd (ends.symm.trans continues) (by decide)
      · have all := complete (Bool.eq_false_iff.mpr ends)
        obtain ⟨others, completeOthers⟩ :=
          inductionHypothesis (askBatch client decode request world chunk).1
        rw [List.map_append, all]
        refine ⟨(List.prefix_append_right_inj chunk).mpr others, fun continues => ?_⟩
        rw [Round.stops_append, Bool.or_eq_false_iff] at continues
        rw [completeOthers continues.2]

end OneBatch

variable {client}

theorem asksInOrder_askMisses : AsksInOrder (askMisses client) where
  asked left world misses := by
    have asked := (@map_fst_askChunks _ _ _ client _ _ client.decodeGetDelegator
      ExactStakeRpcCall.request left (misses.toChunks exactBatchSize) world).1
    rwa [flatten_toChunks] at asked
  complete left world misses continues := by
    have complete := (@map_fst_askChunks _ _ _ client _ _ client.decodeGetDelegator
      ExactStakeRpcCall.request left (misses.toChunks exactBatchSize) world).2 continues
    rwa [flatten_toChunks] at complete

theorem asksInOrder_askSlots : AsksInOrder (askSlots client) where
  asked left world slots := (map_fst_askBatch left world slots).1
  complete left world slots := (map_fst_askBatch left world slots).2

/-- A round ends with an error if a reply stops it, else it leaves what comes next. -/
structure RoundEnds {Next : Type*} (stops : Bool) (ended : Except Stop Next) (next : Next) :
    Prop where
  stopped : stops = true → ∃ message, ended = .error (.failed message)
  continued : stops = false → ended = .ok next

/-- A reader ends as its rounds do: with an error when they are given up, else with what their
values amount to. -/
structure EndsLike {Item : Type w} {Answer : Type x} {Result : Type*}
    (ended : RpcWorld Value Hash × Except Stop Result)
    (run : Gathered (RpcWorld Value Hash) Item Answer)
    (result : List (Item × Answer) → Result) : Prop where
  world : ended.1 = run.world
  failed : run.values = none → ∃ message, ended.2 = .error (.failed message)
  completed : ∀ values, run.values = some values → ended.2 = .ok (result values)

/-! ## The rounds that count down -/

section CountingDown

/-- The updates of the values of a round. -/
def updatesOf (values : List (ExactStakeRpcCall Value Hash × DelegatorState)) :
    List ExactStakeUpdate :=
  values.map fun answered => exactStakeUpdate answered.1 answered.2

omit [DecidableEq Hash] in
theorem updatesOf_append (first rest : List (ExactStakeRpcCall Value Hash × DelegatorState)) :
    updatesOf (first ++ rest) = updatesOf first ++ updatesOf rest := List.map_append

variable {left : ℕ}

omit [DecidableEq Hash] in
/-- The loop over the results of a chunk. -/
theorem foldlM_resolveResult
    {answered : List (ExactStakeRpcCall Value Hash × Except CoreError Bytes)}
    {round : Round (ExactStakeRpcCall Value Hash) DelegatorState}
    (replies : answered.map (fun call =>
      (call.1, replyOf client.decodeGetDelegator call.2)) = round)
    (resolved : Resolved Value Hash) :
    RoundEnds (round.stops left) (answered.foldlM (resolveResult client left) resolved)
      (resolved.1 ++ updatesOf round.values, resolved.2 ++ round.again) := by
  subst replies
  induction answered generalizing resolved with
  | nil =>
      refine ⟨fun stops => absurd stops Bool.false_ne_true, fun _ => ?_⟩
      simp [Round.values, Round.again, updatesOf, pure, Except.pure]
  | cons first rest inductionHypothesis =>
      obtain ⟨call, result⟩ := first
      rw [List.map_cons, List.foldlM_cons, Round.stops_cons]
      cases result with
      | ok bytes =>
          cases decoded : client.decodeGetDelegator bytes with
          | ok state =>
              have others := inductionHypothesis
                (resolved.1 ++ [exactStakeUpdate call state], resolved.2)
              simpa [resolveResult, replyOf, decoded, Reply.stops, updatesOf, bind, Except.bind]
                using others
          | error message =>
              refine ⟨fun _ => ⟨message, ?_⟩, fun continues => ?_⟩
              · simp only [resolveResult, decoded, bind, Except.bind]
              · simp [replyOf, decoded, Reply.stops] at continues
      | error err =>
          by_cases again : 0 < left ∧ isLayerStaleError err.display = true
          · have others := inductionHypothesis (resolved.1, resolved.2 ++ [call])
            have more : (left == 0) = false := beq_false_of_ne again.1.ne'
            simpa [resolveResult, replyOf, again, more, Reply.stops, updatesOf, bind, Except.bind]
              using others
          · refine ⟨fun _ => ⟨err.display, ?_⟩, fun continues => ?_⟩
            · simp only [resolveResult, if_neg again, bind, Except.bind]
            · -- the error is another one, or there are no retries left
              by_cases stale : isLayerStaleError err.display = true
              · have last : left = 0 :=
                  Nat.eq_zero_of_not_pos fun more => again ⟨more, stale⟩
                simp [replyOf, stale, last, Reply.stops] at continues
              · simp [replyOf, stale, Reply.stops] at continues

/-- The loop over the chunks of a round. -/
theorem resolveChunks_eq {chunks : List (List (ExactStakeRpcCall Value Hash))}
    {world world' : RpcWorld Value Hash}
    {round : Round (ExactStakeRpcCall Value Hash) DelegatorState}
    (asked : askChunks client client.decodeGetDelegator ExactStakeRpcCall.request left chunks
      world = (world', round)) (resolved : Resolved Value Hash) :
    (resolveChunks client left chunks world resolved).1 = world' ∧
      RoundEnds (round.stops left) (resolveChunks client left chunks world resolved).2
        (resolved.1 ++ updatesOf round.values, resolved.2 ++ round.again) := by
  induction chunks generalizing world world' round resolved with
  | nil =>
      cases asked
      refine ⟨rfl, fun stops => absurd stops Bool.false_ne_true, fun _ => ?_⟩
      simp [resolveChunks, Round.values, Round.again, updatesOf]
  | cons chunk rest inductionHypothesis =>
      rcases called : client.batchCall world (chunk.map ExactStakeRpcCall.request) with
        ⟨sent, answered⟩
      simp only [askChunks, askBatch, called] at asked
      simp only [resolveChunks, called]
      rcases batchCall_cases called with ⟨err, rfl, some_⟩ | ⟨results, rfl, sameLength⟩
      · -- the batch fails, and with it the first read of the chunk
        have ends : (repliesOf client.decodeGetDelegator chunk (.error err)).stops left = true := by
          cases chunk with
          | nil => exact absurd rfl some_
          | cons call others => rfl
        rw [if_pos ends] at asked
        cases asked
        exact ⟨rfl, fun _ => ⟨_, rfl⟩,
          fun continues => absurd (ends.symm.trans continues) (by decide)⟩
      · generalize replied : repliesOf client.decodeGetDelegator chunk (.ok (some results)) =
          first at asked
        have looped : RoundEnds (first.stops left) _ _ := foldlM_resolveResult replied resolved
        split_ifs at asked with ends
        · cases asked
          obtain ⟨message, failed⟩ := looped.stopped ends
          dsimp only
          rw [failed]
          exact ⟨rfl, fun _ => ⟨message, rfl⟩,
            fun continues => absurd (ends.symm.trans continues) (by decide)⟩
        · have continues := Bool.eq_false_iff.mpr ends
          rcases askedRest : askChunks client client.decodeGetDelegator ExactStakeRpcCall.request
            left rest sent with ⟨after, others⟩
          rw [askedRest] at asked
          cases asked
          have later := inductionHypothesis askedRest
            (resolved.1 ++ updatesOf first.values, resolved.2 ++ first.again)
          dsimp only
          rw [looped.continued continues, Round.stops_append, continues, Bool.false_or,
            Round.values_append, Round.again_append, updatesOf_append, ← List.append_assoc,
            ← List.append_assoc]
          exact later

/-- **The rounds that count down are those of `gather`.** -/
theorem resolveRounds_eq (left : ℕ) (world : RpcWorld Value Hash)
    (misses : List (ExactStakeRpcCall Value Hash)) (updates : List ExactStakeUpdate) :
    EndsLike (resolveRounds client (left + 1) left misses world updates)
      (gather (askMisses client) left world misses) fun values => updates ++ updatesOf values := by
  revert updates
  refine gather_induction (motive := fun left world misses run => ∀ updates,
    EndsLike (resolveRounds client (left + 1) left misses world updates) run
      fun values => updates ++ updatesOf values) ?_ ?_ ?_ left world misses
  · intro left world misses world' round asked stops updates
    obtain ⟨sameWorld, ends⟩ := resolveChunks_eq asked (updates, [])
    obtain ⟨message, failed⟩ := ends.stopped stops
    rcases looped : resolveChunks client left (misses.toChunks exactBatchSize) world (updates, [])
      with ⟨after, ended⟩
    rw [looped] at sameWorld failed
    cases sameWorld
    cases failed
    rw [resolveRounds, looped]
    exact ⟨rfl, fun _ => ⟨message, rfl⟩, fun _ given => nomatch given⟩
  · intro left world misses world' round asked continues finished updates
    obtain ⟨sameWorld, ends⟩ := resolveChunks_eq asked (updates, [])
    have next := ends.continued continues
    rcases looped : resolveChunks client left (misses.toChunks exactBatchSize) world (updates, [])
      with ⟨after, ended⟩
    rw [looped] at sameWorld next
    cases sameWorld
    cases next
    rw [resolveRounds, looped]
    simp only [finished, List.append_nil, List.isEmpty_nil, if_true]
    refine ⟨rfl, fun given => absurd given (Option.some_ne_none _), fun values same => ?_⟩
    cases same
    rfl
  · intro left world misses world' round asked continues unfinished inductionHypothesis updates
    obtain ⟨sameWorld, ends⟩ := resolveChunks_eq asked (updates, [])
    have next := ends.continued continues
    rcases looped : resolveChunks client (left + 1) (misses.toChunks exactBatchSize) world
      (updates, []) with ⟨after, ended⟩
    rw [looped] at sameWorld next
    cases sameWorld
    cases next
    have others := inductionHypothesis (updates ++ updatesOf round.values)
    have more : round.again.isEmpty = false := by simpa using unfinished
    rw [resolveRounds, looped]
    simp only [List.nil_append, more, Bool.false_eq_true, if_false, Nat.add_one_ne_zero,
      Nat.add_sub_cancel]
    refine ⟨others.world, fun given => others.failed ?_, fun values given => ?_⟩
    · simpa using given
    · obtain ⟨later, fromLater, rfl⟩ := Option.map_eq_some_iff.mp given
      rw [others.completed later fromLater, updatesOf_append, List.append_assoc]

end CountingDown

/-! ## The attempts that count up -/

section CountingUp

/-- What the values of a round write to the slots. -/
def fills (values : List ((CachedCall Value × ℕ) × Bytes)) : List (ℕ × Option Bytes) :=
  values.map fun answered => (answered.1.2, some answered.2)

theorem fills_append (first rest : List ((CachedCall Value × ℕ) × Bytes)) :
    fills (first ++ rest) = fills first ++ fills rest := List.map_append

/-- The loop over the results of an attempt; only other errors end it. -/
theorem foldlM_fillSlot
    {answered : List ((CachedCall Value × ℕ) × Except CoreError Bytes)}
    {round : Round (CachedCall Value × ℕ) Bytes}
    (replies : answered.map (fun slot => (slot.1, replyOf Except.ok slot.2)) = round)
    (filled : Filled) :
    RoundEnds (round.stops 1)
      ((answered.map fun slot => (slot.1.2, slot.2)).foldlM fillSlot filled)
      (writeAll (fills round.values) filled.1, filled.2 ++ round.again.map Prod.snd) := by
  subst replies
  induction answered generalizing filled with
  | nil =>
      refine ⟨fun stops => absurd stops Bool.false_ne_true, fun _ => ?_⟩
      simp [Round.values, Round.again, fills, writeAll, pure, Except.pure]
  | cons first rest inductionHypothesis =>
      obtain ⟨slot, result⟩ := first
      rw [List.map_cons, List.map_cons, List.foldlM_cons, Round.stops_cons]
      cases result with
      | ok bytes =>
          have others := inductionHypothesis (filled.1.set slot.2 (some bytes), filled.2)
          simpa [fillSlot, replyOf, Reply.stops, fills, writeAll, bind, Except.bind] using others
      | error err =>
          by_cases stale : isLayerStaleError err.display = true
          · have others := inductionHypothesis (filled.1, filled.2 ++ [slot.2])
            simpa [fillSlot, replyOf, stale, Reply.stops, fills, bind, Except.bind] using others
          · refine ⟨fun _ => ⟨err.display, ?_⟩, fun continues => ?_⟩
            · simp only [fillSlot, if_neg stale, bind, Except.bind]
            · simp [replyOf, stale, Reply.stops] at continues

variable {requests : List (CachedCall Value)}

omit [DecidableEq Hash] in
/-- The requests at the positions of some slots. -/
theorem mapM_getElem? {slots : List (CachedCall Value × ℕ)}
    (reads : ∀ slot ∈ slots, requests[slot.2]? = some slot.1) :
    (slots.map Prod.snd).mapM (fun i => requests[i]?) = some (slots.map Prod.fst) := by
  induction slots with
  | nil => rfl
  | cons slot rest inductionHypothesis =>
      have others := inductionHypothesis fun other member =>
        reads other (List.mem_cons_of_mem _ member)
      rw [List.map_cons, List.mapM_cons, reads slot (List.mem_cons_self ..), others]
      rfl

/-- One attempt. -/
theorem attempts_cons {slots : List (CachedCall Value × ℕ)} {world world' : RpcWorld Value Hash}
    {round : Round (CachedCall Value × ℕ) Bytes} {left attempt : ℕ} {rest : List ℕ}
    (reads : ∀ slot ∈ slots, requests[slot.2]? = some slot.1)
    (asked : askSlots client left world slots = (world', round)) (responses : List (Option Bytes)) :
    (round.stops 1 = true → ∃ message,
      attempts client requests (attempt :: rest) world responses (slots.map Prod.snd) =
        (world', .error (.failed message))) ∧
    (round.stops 1 = false →
      attempts client requests (attempt :: rest) world responses (slots.map Prod.snd) =
        if round.again = [] then (world', .ok (writeAll (fills round.values) responses))
        else if attempt = layerStaleRetries then
          (world', .error (.failed (stillLayerStale round.again.length)))
        else attempts client requests rest world' (writeAll (fills round.values) responses)
          (round.again.map Prod.snd)) := by
  rcases called : client.batchCall world (slots.map Prod.fst) with ⟨sent, answered⟩
  simp only [askSlots, askBatch, called] at asked
  simp only [attempts, mapM_getElem? reads, called]
  rcases batchCall_cases called with ⟨err, rfl, some_⟩ | ⟨results, rfl, sameLength⟩
  · cases asked
    cases slots with
    | nil => exact absurd rfl some_
    | cons slot others =>
        exact ⟨fun _ => ⟨_, rfl⟩, fun continues => nomatch continues⟩
  · cases asked
    have looped := foldlM_fillSlot
      (rfl : _ = repliesOf Except.ok slots (.ok (some results))) (responses, [])
    rw [show (slots.zip results).map (fun slot => (slot.1.2, slot.2)) =
      (slots.map Prod.snd).zip results from (List.zip_map_left ..).symm] at looped
    refine ⟨fun stops => ?_, fun continues => ?_⟩
    · obtain ⟨message, failed⟩ := looped.stopped stops
      refine ⟨message, ?_⟩
      dsimp only
      rw [failed]
    · dsimp only
      rw [looped.continued continues]
      simp only [List.nil_append, List.isEmpty_iff, List.map_eq_nil_iff, List.length_map]

/-- **The attempts that count up are the rounds of `gather`.** -/
theorem attempts_eq (left : ℕ) (world : RpcWorld Value Hash)
    (slots : List (CachedCall Value × ℕ)) (within : left ≤ layerStaleRetries)
    (reads : ∀ slot ∈ slots, requests[slot.2]? = some slot.1) (responses : List (Option Bytes)) :
    EndsLike
      (attempts client requests (List.range' (layerStaleRetries - left) (left + 1)) world responses
        (slots.map Prod.snd))
      (gather (askSlots client) left world slots)
      fun values => writeAll (fills values) responses := by
  revert within reads responses
  refine gather_induction (motive := fun left world slots run => left ≤ layerStaleRetries →
    (∀ slot ∈ slots, requests[slot.2]? = some slot.1) → ∀ responses,
    EndsLike (attempts client requests (List.range' (layerStaleRetries - left) (left + 1)) world
      responses (slots.map Prod.snd)) run fun values => writeAll (fills values) responses)
    ?_ ?_ ?_ left world slots
  · intro left world slots world' round asked stops within reads responses
    have ended : ∃ message, attempts client requests
        (List.range' (layerStaleRetries - left) (left + 1)) world responses (slots.map Prod.snd) =
          (world', .error (.failed message)) := by
      rw [List.range'_succ]
      have attempted := @attempts_cons _ _ _ client requests slots world world' round left
        (layerStaleRetries - left) (List.range' (layerStaleRetries - left + 1) left) reads asked
        responses
      cases other : round.stops 1 with
      | true => exact attempted.1 other
      | false =>
          -- nothing but reads to ask again stops the round, so this is the last attempt
          rcases Round.stops_eq_true.mp stops with ⟨item, failed⟩ | ⟨rfl, item, again⟩
          · exact absurd failed ((Round.stops_eq_false.mp other).1 item)
          · have some_ : round.again ≠ [] := List.ne_nil_of_mem (Round.mem_again.mpr again)
            exact ⟨_, by rw [attempted.2 other, if_neg some_, if_pos (Nat.sub_zero _)]⟩
    obtain ⟨message, same⟩ := ended
    rw [same]
    exact ⟨rfl, fun _ => ⟨message, rfl⟩, fun _ given => nomatch given⟩
  · intro left world slots world' round asked continues finished within reads responses
    have other : round.stops 1 = false := Round.stops_eq_false.mpr
      ⟨(Round.stops_eq_false.mp continues).1, fun last => absurd last (by decide)⟩
    rw [List.range'_succ, (attempts_cons reads asked responses).2 other, if_pos finished]
    refine ⟨rfl, fun given => absurd given (Option.some_ne_none _), fun values same => ?_⟩
    cases same
    rfl
  · intro left world slots world' round asked continues some_ inductionHypothesis within reads
      responses
    have other : round.stops 1 = false := Round.stops_eq_false.mpr
      ⟨(Round.stops_eq_false.mp continues).1, fun last => absurd last (by decide)⟩
    have more : layerStaleRetries - (left + 1) ≠ layerStaleRetries := by
      have positive : 0 < layerStaleRetries := by decide
      omega
    have next : layerStaleRetries - (left + 1) + 1 = layerStaleRetries - left := by omega
    have listed := (@asksInOrder_askSlots _ _ _ client).asked (left + 1) world slots
    rw [asked] at listed
    have others := inductionHypothesis (Nat.le_of_succ_le within)
      (fun slot member => reads slot
        (listed.subset (List.mem_map_of_mem (Round.mem_again.mp member))))
      (writeAll (fills round.values) responses)
    rw [List.range'_succ, (attempts_cons reads asked responses).2 other, if_neg some_,
      if_neg more, next]
    refine ⟨others.world, fun given => others.failed ?_, fun values given => ?_⟩
    · simpa using given
    · obtain ⟨later, fromLater, rfl⟩ := Option.map_eq_some_iff.mp given
      rw [others.completed later fromLater, fills_append, writeAll, writeAll, writeAll,
        List.foldl_append]

/-- Values that come one for each slot fill every slot with its own. -/
theorem writeAll_fills {sorted values : List ((CachedCall Value × ℕ) × Bytes)}
    (own : sorted.map Prod.fst = requests.zipIdx) (same : sorted.Perm values) :
    writeAll (fills values) (List.replicate requests.length none) =
      (sorted.map Prod.snd).map some := by
  have placed : ∀ {position : ℕ} {answered}, sorted[position]? = some answered →
      answered.1.2 = position := by
    intro position answered found
    have slot : requests.zipIdx[position]? = some answered.1 := by
      rw [← own, List.getElem?_map, found]
      rfl
    rw [List.getElem?_zipIdx, Option.map_eq_some_iff] at slot
    obtain ⟨call, _, asked⟩ := slot
    rw [← asked, Nat.zero_add]
  refine writeAll_eq_of_agrees ?_ ?_ ?_
  · have sameLength := congrArg List.length own
    simpa using sameLength.symm
  · intro write member value wanted
    obtain ⟨answered, replied, rfl⟩ := List.mem_map.mp member
    obtain ⟨position, found⟩ := List.mem_iff_getElem?.mp (same.mem_iff.mpr replied)
    rw [placed found, List.getElem?_map, List.getElem?_map, found] at wanted
    cases wanted
    rfl
  · intro position value wanted
    rw [List.getElem?_map, List.getElem?_map, Option.map_eq_some_iff] at wanted
    obtain ⟨bytes, found, rfl⟩ := wanted
    obtain ⟨answered, listed, rfl⟩ := Option.map_eq_some_iff.mp found
    have replied := same.mem_iff.mp (List.mem_of_getElem? listed)
    exact Or.inr ⟨_, List.mem_map_of_mem replied, placed listed⟩

end CountingUp

/-! ## Both readers -/

/-- What becomes of some items that may be asked again so many times. -/
structure Retries {Item : Type w} {Answer : Type x} (retries : ℕ) (items : List Item)
    (rounds : List (Round Item Answer)) (ended : Except Stop (List (Item × Answer))) : Prop where
  within : rounds.length ≤ retries + 1
  ends : ended ≠ .error .panicked ∧ ended ≠ .error .unfinished
  /-- Each item has one value, which a round replied to it. -/
  one_each : ∀ values, ended = .ok values → (values.map Prod.fst).Perm items ∧
    ∀ answered ∈ values, ∃ round ∈ rounds, (answered.1, Reply.value answered.2) ∈ round
  /-- An error is another one than a stale layer, or the last round has a stale layer. -/
  failed : (∃ message, ended = .error (.failed message)) ↔
    (∃ round ∈ rounds, ∃ item, (item, Reply.failed) ∈ round) ∨ rounds.length = retries + 1 ∧
      ∃ round ∈ rounds.getLast?, ∃ item, (item, Reply.again) ∈ round

omit [DecidableEq Hash] in
/-- A reader that ends as the rounds of `gather` do, with their values in some order. -/
theorem retries_of_gather {Item : Type w} {Answer : Type x} {Result : Type*}
    {ask : Ask (RpcWorld Value Hash) Item Answer} (inOrder : AsksInOrder ask) {left : ℕ}
    {world : RpcWorld Value Hash} {items : List Item}
    {ended : RpcWorld Value Hash × Except Stop Result} {result : List (Item × Answer) → Result}
    {arranged : List (Item × Answer) → Prop}
    (sameWorld : ended.1 = (gather ask left world items).world)
    (given_up : (gather ask left world items).values = none →
      ∃ message, ended.2 = .error (.failed message))
    (completed : ∀ values, (gather ask left world items).values = some values →
      ∃ sorted : List (Item × Answer), sorted.Perm values ∧ arranged sorted ∧
        ended.2 = .ok (result sorted)) :
    ∃ outcome, Retries left items (gather ask left world items).rounds outcome ∧
      (∀ values, outcome = .ok values → arranged values) ∧
      ended = ((gather ask left world items).world, outcome.map result) := by
  obtain ⟨after, ends⟩ := ended
  cases sameWorld
  have stops := values_gather_eq_none_iff ask left world items
  have within := length_rounds_gather ask left world items
  cases gathered : (gather ask left world items).values with
  | none =>
      obtain ⟨message, failed⟩ := given_up gathered
      cases failed
      refine ⟨.error (.failed message), ⟨within, ?_, ?_, ?_⟩, ?_, rfl⟩
      · constructor <;> rintro ⟨⟩
      · rintro _ ⟨⟩
      · exact iff_of_true ⟨message, rfl⟩ (stops.mp gathered)
      · rintro _ ⟨⟩
  | some values =>
      obtain ⟨sorted, same, inPlace, done⟩ := completed values gathered
      cases done
      refine ⟨.ok sorted, ⟨within, ?_, ?_, ?_⟩, ?_, rfl⟩
      · constructor <;> rintro ⟨⟩
      · rintro _ ⟨⟩
        exact ⟨(same.map Prod.fst).trans (perm_values_gather inOrder gathered),
          fun answered member => mem_of_values_gather gathered (same.mem_iff.mp member)⟩
      · refine iff_of_false (by rintro ⟨_, ⟨⟩⟩) fun held => ?_
        exact absurd ((stops.mpr held).symm.trans gathered) (Option.some_ne_none values).symm
      · rintro _ ⟨⟩
        exact inPlace

/-- Values whose items are some items in another order can be put in their order. -/
theorem exists_perm_of_map_fst {Item : Type w} {Answer : Type x} {items : List Item}
    {values : List (Item × Answer)} (same : (values.map Prod.fst).Perm items) :
    ∃ sorted : List (Item × Answer), sorted.Perm values ∧ sorted.map Prod.fst = items := by
  have composed : (items.Perm <| values.map Prod.fst) := same.symm
  rw [← congrFun (congrFun (List.eq_map_comp_perm Prod.fst) items) values] at composed
  obtain ⟨sorted, own, reordered⟩ := composed
  exact ⟨sorted, reordered, own.symm⟩

/-- **The loops that ask again.**  Both readers end within the allowed rounds, never by a panic;
a result has one value for each request, paired with it; the reader returns an error exactly after
an error that is no stale layer, or a stale layer in the last round. -/
theorem layerStale_retries (client : RpcClient Value Hash) (world : RpcWorld Value Hash) :
    (∀ (misses : List (ExactStakeRpcCall Value Hash)) (retriesLeft : ℕ), ∃ outcome,
      Retries retriesLeft misses (gather (askMisses client) retriesLeft world misses).rounds
        outcome ∧
      resolveExactMissesBatched client misses retriesLeft world =
        ((gather (askMisses client) retriesLeft world misses).world, outcome.map updatesOf)) ∧
    ∀ requests : List (CachedCall Value), ∃ outcome,
      Retries layerStaleRetries requests.zipIdx
        (gather (askSlots client) layerStaleRetries world requests.zipIdx).rounds outcome ∧
      (∀ values, outcome = .ok values → values.map Prod.fst = requests.zipIdx) ∧
      batchWithRetries client requests world =
        ((gather (askSlots client) layerStaleRetries world requests.zipIdx).world,
          outcome.map (List.map Prod.snd)) := by
  refine ⟨fun misses retriesLeft => ?_, fun requests => ?_⟩
  · obtain ⟨sameWorld, given_up, completed⟩ := resolveRounds_eq retriesLeft world misses []
    have finished : ∀ values,
        (gather (askMisses client) retriesLeft world misses).values = some values →
        ∃ sorted : List (ExactStakeRpcCall Value Hash × DelegatorState), sorted.Perm values ∧
          True ∧ (resolveExactMissesBatched client misses retriesLeft world).2 =
            .ok (updatesOf sorted) := fun values gathered =>
      ⟨values, List.Perm.refl values, trivial, completed values gathered⟩
    obtain ⟨outcome, retried, _, same⟩ :=
      retries_of_gather asksInOrder_askMisses sameWorld given_up finished
    exact ⟨outcome, retried, same⟩
  · have slots : ∀ slot ∈ requests.zipIdx, requests[slot.2]? = some slot.1 := fun slot member =>
      List.mem_zipIdx_iff_getElem?.mp member
    obtain ⟨sameWorld, given_up, completed⟩ := @attempts_eq _ _ _ client requests layerStaleRetries
      world requests.zipIdx (le_refl _) slots (List.replicate requests.length none)
    rw [Nat.sub_self, ← List.range_eq_range', List.zipIdx_map_snd, ← List.range_eq_range']
      at sameWorld given_up completed
    unfold batchWithRetries
    rcases attempted : attempts client requests (List.range (layerStaleRetries + 1)) world
      (List.replicate requests.length none) (List.range requests.length) with ⟨after, responses⟩
    rw [attempted] at sameWorld given_up completed
    refine retries_of_gather asksInOrder_askSlots ?_ (fun gathered => ?_) fun values gathered => ?_
    · cases responses <;> exact sameWorld
    · obtain ⟨message, failed⟩ := given_up gathered
      cases failed
      exact ⟨message, rfl⟩
    · cases completed values gathered
      obtain ⟨sorted, same, own⟩ :=
        exists_perm_of_map_fst (perm_values_gather asksInOrder_askSlots gathered)
      refine ⟨sorted, same, own, ?_⟩
      dsimp only
      rw [writeAll_fills own same, Codec.mapM_id_map_some]

end ProtocolExplorer.Staker
