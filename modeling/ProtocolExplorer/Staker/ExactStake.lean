import ProtocolExplorer.Lib.Reconciliation
import ProtocolExplorer.Staker.BulkPending
import ProtocolExplorer.Staker.LayerStale

/-!
# Every stake at its own block

`reconcile_exact_stake_rows` reads `getDelegator` for every stored stake row at the block of the
row.  What is cached is decoded in a loop, the other reads go through the rounds of
`resolve_exact_misses_batched`; the updates of both are unnested in chunks and joined with the
rows.  The answers of the archive and the rows of the cache are taken to tell what the contract
returns, if they decode at all.

* `gather_exact` — what the rounds return is what the contract returns;
* `exactStakeUpdates_exact` — there is one update for every row whose address parses, with the
  state of its delegator at its block;
* `reconcileExactStakeRows_exact` — **when the pass returns, the principal and the delegate of
  each of these rows are those of the contract, and nothing else has changed**;
* `reconciledTotal_eq` — the pass returns the number of these rows.
-/

set_option autoImplicit false

namespace ProtocolExplorer.Staker

open ProtocolExplorer.Lib
open ProtocolExplorer.Rpc
open ProtocolExplorer.Store

universe u v w

variable {Value : Type u} {Hash : Type v} {Delegator : Type w} [DecidableEq Hash]

/-! ## The pass -/

/-- How a call of `getDelegator` is written. -/
structure CallFormat (Value : Type u) (Delegator : Type w) where
  /-- `Address::from_str`. -/
  addressFromStr : Address → Option Delegator
  /-- The parameters of `eth_call`: the contract, the call data and the block. -/
  params : Delegator → ℤ → Value

/-- `call_for_get_delegator`. -/
def CallFormat.getDelegator (format : CallFormat Value Delegator) (delegator : Delegator)
    (blockNumber : ℤ) : CachedCall Value :=
  ⟨"eth_call", format.params delegator blockNumber, some blockNumber⟩

section Pass

variable (client : RpcClient Value Hash) (format : CallFormat Value Delegator)

/-- The call of a row; a row whose address does not parse is skipped. -/
def exactStakeCall (key : Address × ℤ) : Option (ExactStakeRpcCall Value Hash) :=
  (format.addressFromStr key.1).map fun delegator =>
    { delegatorLower := key.1
      blockNumber := key.2
      stateHash := client.codec.computeCallHash (format.getDelegator delegator key.2)
      stateParams := format.params delegator key.2 }

/-- `prefetch_cache`. -/
def prefetchCache (hashes : List Hash) (cache : CallCache Value Hash) (hash : Hash) :
    Option Bytes :=
  if hash ∈ hashes then (cache.lookup hash).map CacheRow.responseBytes else none

/-- The body of the loop over the calls. -/
def splitHit (cacheMap : Hash → Option Bytes) (split : Resolved Value Hash)
    (call : ExactStakeRpcCall Value Hash) : Except Stop (Resolved Value Hash) :=
  match cacheMap call.stateHash with
  | some bytes =>
      match client.decodeGetDelegator bytes with
      | .ok state => .ok (split.1 ++ [exactStakeUpdate call state], split.2)
      | .error message => .error (.failed message)
  | none => .ok (split.1, split.2 ++ [call])

/-- The updates of the hits, then those of the misses. -/
def exactStakeUpdates (keys : List (Address × ℤ)) (world : RpcWorld Value Hash) :
    RpcWorld Value Hash × Except Stop (List ExactStakeUpdate) :=
  let calls := keys.filterMap (exactStakeCall client format)
  let cacheMap := prefetchCache (calls.map ExactStakeRpcCall.stateHash) world.cache
  match calls.foldlM (splitHit client cacheMap) ([], []) with
  | .error stop => (world, .error stop)
  | .ok (updates, misses) =>
      if misses.isEmpty then (world, .ok updates)
      else
        match resolveExactMissesBatched client misses exactLayerStaleRetries world with
        | (world, .error stop) => (world, .error stop)
        | (world, .ok missedUpdates) => (world, .ok (updates ++ missedUpdates))

namespace ExactStakeUpdate

/-- The key of the row that an update matches. -/
def key (update : ExactStakeUpdate) : Address × ℤ := (update.delegator, update.blockNumber)

/-- The `SET` clause. -/
def write (update : ExactStakeUpdate) (stored : AuditedRow) : AuditedRow :=
  { stored with
    row := { stored.row with
      bondedPrincipal := update.bondedPrincipal
      delegateAddress := update.delegateAddress } }

theorem write_write (earlier later : ExactStakeUpdate) (stored : AuditedRow) :
    later.write (earlier.write stored) = later.write stored := rfl

end ExactStakeUpdate

/-- `reconcile_exact_stake_rows` has read some keys, has left a table and returns a number. -/
def ReconcileExactStakeRows (keys : List (Address × ℤ)) (world : RpcWorld Value Hash)
    (table : Table (Address × ℤ) AuditedRow) (world' : RpcWorld Value Hash)
    (table' : Table (Address × ℤ) AuditedRow) (reconciledTotal : ℕ) : Prop :=
  ∃ updates, exactStakeUpdates client format keys world = (world', .ok updates) ∧
    CountJoins ExactStakeUpdate.key ExactStakeUpdate.write (updates.toChunks updateChunk) table 0
      table' reconciledTotal

end Pass

/-! ## What the contract returns -/

section Contract

variable (client : RpcClient Value Hash) (format : CallFormat Value Delegator)
  (contract : Delegator → ℤ → DelegatorState)

/-- Bytes that decode to what the contract returns, if they answer a read of it and decode. -/
def TellsState (call : CachedCall Value) (bytes : Bytes) : Prop :=
  ∀ delegator blockNumber state, call = format.getDelegator delegator blockNumber →
    client.decodeGetDelegator bytes = .ok state → state = contract delegator blockNumber

/-- The answers tell what the contract returns, and each call has a hash of its own. -/
structure Truthful (known : Set (CachedCall Value)) : Prop where
  /-- A provider may fail, and lag; what it serves is the answer to the call. -/
  served : ∀ n call value, client.codec.Served (client.providers n) call (.ok value) →
    TellsState client format contract call (client.codec.toVec value)
  /-- SHA-256 has no collision among the known calls. -/
  noCollision : Set.InjOn client.codec.computeCallHash known

/-- The archive and the cache answer for the contract; the reads of some rows are known calls. -/
structure AnswersFor (keys : List (Address × ℤ)) (known : Set (CachedCall Value))
    (cache : CallCache Value Hash) : Prop extends Truthful client format contract known where
  recorded : client.codec.Records known (TellsState client format contract) cache
  asked : ∀ key ∈ keys, ∀ delegator, format.addressFromStr key.1 = some delegator →
    format.getDelegator delegator key.2 ∈ known

end Contract

section Answers

variable {client : RpcClient Value Hash} {format : CallFormat Value Delegator}
  {contract : Delegator → ℤ → DelegatorState} {keys : List (Address × ℤ)}
  {known : Set (CachedCall Value)} {world world' : RpcWorld Value Hash}

omit [DecidableEq Hash] in
/-- The calls of some rows. -/
theorem mem_exactStakeCalls {call : ExactStakeRpcCall Value Hash} :
    call ∈ keys.filterMap (exactStakeCall client format) ↔
      ∃ key ∈ keys, ∃ delegator, format.addressFromStr key.1 = some delegator ∧
        call = ⟨key.1, key.2, client.codec.computeCallHash (format.getDelegator delegator key.2),
          format.params delegator key.2⟩ := by
  simp only [List.mem_filterMap, exactStakeCall, Option.map_eq_some_iff, @eq_comm _ call]

/-- A state is what the contract returns for the delegator of a call. -/
def IsExact (format : CallFormat Value Delegator) (contract : Delegator → ℤ → DelegatorState)
    (call : ExactStakeRpcCall Value Hash) (state : DelegatorState) : Prop :=
  ∃ delegator, format.addressFromStr call.delegatorLower = some delegator ∧
    state = contract delegator call.blockNumber

/-- The request of a call is a known read of the contract. -/
structure Asks (format : CallFormat Value Delegator) (known : Set (CachedCall Value))
    (call : ExactStakeRpcCall Value Hash) : Prop where
  known : call.request ∈ known
  reads : ∃ delegator, format.addressFromStr call.delegatorLower = some delegator ∧
    call.request = format.getDelegator delegator call.blockNumber

omit [DecidableEq Hash] in
/-- What is told about the call of a row is exact. -/
theorem Asks.isExact {call : ExactStakeRpcCall Value Hash} (asks : Asks format known call)
    {bytes : Bytes} (tells : TellsState client format contract call.request bytes)
    {state : DelegatorState} (decoded : client.decodeGetDelegator bytes = .ok state) :
    IsExact format contract call state := by
  obtain ⟨delegator, parsed, own⟩ := asks.reads
  exact ⟨delegator, parsed, tells delegator call.blockNumber state own decoded⟩

theorem AnswersFor.asks (answers : AnswersFor client format contract keys known world.cache)
    {call : ExactStakeRpcCall Value Hash}
    (listed : call ∈ keys.filterMap (exactStakeCall client format)) : Asks format known call := by
  obtain ⟨key, member, delegator, parsed, rfl⟩ := mem_exactStakeCalls.mp listed
  exact ⟨answers.asked key member delegator parsed, delegator, parsed, rfl⟩

end Answers

/-! ## The reads -/

section Reads

variable {client : RpcClient Value Hash} {format : CallFormat Value Delegator}
  {contract : Delegator → ℤ → DelegatorState} {keys : List (Address × ℤ)}
  {known : Set (CachedCall Value)} {world world' : RpcWorld Value Hash}

omit [DecidableEq Hash] in
/-- The loop over the calls decodes the hits and keeps the misses. -/
theorem foldlM_splitHit {cacheMap : Hash → Option Bytes}
    {calls : List (ExactStakeRpcCall Value Hash)} {split split' : Resolved Value Hash}
    (looped : calls.foldlM (splitHit client cacheMap) split = .ok split') :
    ∃ hits misses, split' = (split.1 ++ updatesOf hits, split.2 ++ misses) ∧
      (hits.map Prod.fst ++ misses).Perm calls ∧
      ∀ hit ∈ hits, ∃ bytes, cacheMap hit.1.stateHash = some bytes ∧
        client.decodeGetDelegator bytes = .ok hit.2 := by
  induction calls generalizing split with
  | nil =>
      cases looped
      exact ⟨[], [], by simp [updatesOf], List.Perm.refl _, nofun⟩
  | cons call rest inductionHypothesis =>
      rw [List.foldlM_cons] at looped
      cases cached : cacheMap call.stateHash with
      | none =>
          simp only [splitHit, cached] at looped
          obtain ⟨hits, misses, rfl, same, decoded⟩ := inductionHypothesis looped
          refine ⟨hits, call :: misses, ?_, List.perm_middle.trans (same.cons call), decoded⟩
          rw [List.append_assoc, List.singleton_append]
      | some bytes =>
          cases own : client.decodeGetDelegator bytes with
          | error message =>
              simp only [splitHit, cached, own] at looped
              cases looped
          | ok state =>
              simp only [splitHit, cached, own] at looped
              obtain ⟨hits, misses, rfl, same, decoded⟩ := inductionHypothesis looped
              refine ⟨(call, state) :: hits, misses, ?_, same.cons call, ?_⟩
              · rw [List.append_assoc]
                rfl
              · intro hit member
                rcases List.mem_cons.mp member with rfl | later
                · exact ⟨bytes, cached, own⟩
                · exact decoded hit later

/-- A batch keeps the cache truthful, and its values are exact. -/
theorem askBatch_exact (truthful : Truthful client format contract known)
    {calls : List (ExactStakeRpcCall Value Hash)} (asks : ∀ call ∈ calls, Asks format known call)
    (recorded : client.codec.Records known (TellsState client format contract) world.cache) :
    client.codec.Records known (TellsState client format contract)
        (askBatch client client.decodeGetDelegator ExactStakeRpcCall.request world calls).1.cache ∧
      ∀ replied ∈ (askBatch client client.decodeGetDelegator ExactStakeRpcCall.request world
        calls).2, ∀ state, replied.2 = .value state → IsExact format contract replied.1 state := by
  rcases called : client.codec.batchCallCached client.cacheOnly (client.providers world.called)
    (calls.map ExactStakeRpcCall.request) world.cache with ⟨after, answered⟩
  simp only [askBatch, RpcClient.batchCall, called]
  rcases Codec.batchCallCached_cases called with ⟨err, rfl, rfl⟩ | ⟨results, rfl, replies⟩
  · refine ⟨recorded, fun replied member state value => ?_⟩
    obtain ⟨call, _, rfl⟩ := List.mem_map.mp member
    cases value
  · have requested : ∀ request ∈ calls.map ExactStakeRpcCall.request, request ∈ known := by
      intro request member
      obtain ⟨call, listed, rfl⟩ := List.mem_map.mp member
      exact (asks call listed).known
    obtain ⟨kept, tells⟩ := Codec.records_batchCallCached recorded truthful.noCollision requested
      (truthful.served world.called) replies
    refine ⟨kept, fun replied member state value => ?_⟩
    obtain ⟨⟨call, result⟩, paired, rfl⟩ := List.mem_map.mp member
    obtain ⟨position, placed⟩ := List.mem_iff_getElem?.mp paired
    obtain ⟨own, ofResult⟩ := List.getElem?_zip_eq_some.mp placed
    rw [List.getElem?_map, Option.map_eq_some_iff] at ofResult
    obtain ⟨outcome, found, rfl⟩ := ofResult
    have request : (calls.map ExactStakeRpcCall.request)[position]? = some call.request := by
      rw [List.getElem?_map, own]
      rfl
    cases outcome with
    | error err =>
        simp only [replyOf, Except.map] at value
        split_ifs at value
    | ok outcome =>
        have told := tells position call.request outcome request found
        simp only [replyOf, Except.map] at value
        cases decoded : client.decodeGetDelegator outcome.responseBytes with
        | error message =>
            rw [decoded] at value
            cases value
        | ok other =>
            rw [decoded] at value
            cases value
            exact (asks call (List.mem_of_getElem? own)).isExact told decoded

/-- So do the chunks of a round. -/
theorem askChunks_exact (truthful : Truthful client format contract known) (left : ℕ)
    {chunks : List (List (ExactStakeRpcCall Value Hash))}
    (asks : ∀ chunk ∈ chunks, ∀ call ∈ chunk, Asks format known call)
    (recorded : client.codec.Records known (TellsState client format contract) world.cache) :
    client.codec.Records known (TellsState client format contract)
        (askChunks client client.decodeGetDelegator ExactStakeRpcCall.request left chunks
          world).1.cache ∧
      ∀ replied ∈ (askChunks client client.decodeGetDelegator ExactStakeRpcCall.request left chunks
        world).2, ∀ state, replied.2 = .value state → IsExact format contract replied.1 state := by
  induction chunks generalizing world with
  | nil => exact ⟨recorded, nofun⟩
  | cons chunk rest inductionHypothesis =>
      have first := askBatch_exact truthful (asks chunk (List.mem_cons_self ..)) recorded
      rw [askChunks]
      dsimp only
      split_ifs
      · exact first
      · have others := inductionHypothesis
          (fun other member => asks other (List.mem_cons_of_mem _ member)) first.1
        exact ⟨others.1, fun replied member =>
          (List.mem_append.mp member).elim (first.2 replied) (others.2 replied)⟩

/-- **What the rounds return is what the contract returns.** -/
theorem gather_exact (truthful : Truthful client format contract known) {left : ℕ}
    {misses : List (ExactStakeRpcCall Value Hash)} (asks : ∀ call ∈ misses, Asks format known call)
    (recorded : client.codec.Records known (TellsState client format contract) world.cache)
    {values : List (ExactStakeRpcCall Value Hash × DelegatorState)}
    (completed : (gather (askMisses client) left world misses).values = some values) :
    (values.map Prod.fst).Perm misses ∧
      ∀ answered ∈ values, IsExact format contract answered.1 answered.2 := by
  refine ⟨perm_values_gather asksInOrder_askMisses completed, fun answered member => ?_⟩
  obtain ⟨round, listed, replied⟩ := mem_of_values_gather completed member
  have all := @gather_all _ _ _ (askMisses client) left world misses asksInOrder_askMisses
    (fun world => client.codec.Records known (TellsState client format contract) world.cache)
    (Asks format known)
    (fun call reply => ∀ state, reply = .value state → IsExact format contract call state)
    (fun left world calls kept wanted => askChunks_exact truthful left
      (fun chunk inChunks call inChunk => wanted call (by
        rw [← flatten_toChunks exactBatchSize calls]
        exact List.mem_flatten.mpr ⟨chunk, inChunks, inChunk⟩)) kept) recorded asks
  exact all.2 round listed _ replied answered.2 rfl

/-- A hit is decoded to what the contract returns. -/
theorem hit_exact (answers : AnswersFor client format contract keys known world.cache)
    {call : ExactStakeRpcCall Value Hash}
    (listed : call ∈ keys.filterMap (exactStakeCall client format)) {hashes : List Hash}
    {bytes : Bytes} (cached : prefetchCache hashes world.cache call.stateHash = some bytes)
    {state : DelegatorState} (decoded : client.decodeGetDelegator bytes = .ok state) :
    IsExact format contract call state := by
  have asks := answers.asks listed
  have own : call.stateHash = client.codec.computeCallHash call.request := by
    obtain ⟨key, _, delegator, _, rfl⟩ := mem_exactStakeCalls.mp listed
    rfl
  rw [prefetchCache, Option.ite_none_right_eq_some, Option.map_eq_some_iff, own] at cached
  obtain ⟨_, row, found, rfl⟩ := cached
  have tells := answers.recorded.tells_of_lookup answers.noCollision asks.known found
  exact asks.isExact tells decoded

/-- **There is one update for every row whose address parses, with the state of its delegator at
its block.** -/
theorem exactStakeUpdates_exact (answers : AnswersFor client format contract keys known world.cache)
    {updates : List ExactStakeUpdate}
    (completed : exactStakeUpdates client format keys world = (world', .ok updates)) :
    (updates.map ExactStakeUpdate.key).Perm
        (keys.filter fun key => (format.addressFromStr key.1).isSome) ∧
      ∀ update ∈ updates, ∃ (call : ExactStakeRpcCall Value Hash) (state : DelegatorState),
        IsExact format contract call state ∧ update = exactStakeUpdate call state := by
  have calledKeys : (keys.filterMap (exactStakeCall client format)).map
      (fun call => (call.delegatorLower, call.blockNumber)) =
        keys.filter fun key => (format.addressFromStr key.1).isSome := by
    rw [List.map_filterMap, ← List.filterMap_eq_filter]
    refine List.filterMap_congr fun key _ => ?_
    cases parsed : format.addressFromStr key.1 with
    | none => simp [exactStakeCall, parsed, Option.guard]
    | some delegator => simp [exactStakeCall, parsed, Option.guard]
  -- all updates come from answered calls, the hits before the misses
  obtain ⟨answered, rfl, same, exact⟩ : ∃ answered, updates = updatesOf answered ∧
      (answered.map Prod.fst).Perm (keys.filterMap (exactStakeCall client format)) ∧
      ∀ read ∈ answered, IsExact format contract read.1 read.2 := by
    unfold exactStakeUpdates at completed
    dsimp only at completed
    split at completed
    · cases completed
    · next hitUpdates misses looped =>
        obtain ⟨hits, others, split, same, decoded⟩ := foldlM_splitHit looped
        rw [List.nil_append, List.nil_append] at split
        cases split
        have listed : ∀ call ∈ hits.map Prod.fst ++ misses,
            call ∈ keys.filterMap (exactStakeCall client format) := fun call member =>
          same.mem_iff.mp member
        have hitsExact : ∀ read ∈ hits, IsExact format contract read.1 read.2 := by
          intro read member
          obtain ⟨bytes, cached, own⟩ := decoded read member
          exact hit_exact answers
            (listed read.1 (List.mem_append_left _ (List.mem_map_of_mem member))) cached own
        split_ifs at completed with none
        · cases completed
          rw [List.isEmpty_iff.mp none, List.append_nil] at same
          exact ⟨hits, rfl, same, hitsExact⟩
        · have resolved : EndsLike
              (resolveExactMissesBatched client misses exactLayerStaleRetries world)
              (gather (askMisses client) exactLayerStaleRetries world misses) updatesOf :=
            resolveRounds_eq exactLayerStaleRetries world misses []
          have asks : ∀ call ∈ misses, Asks format known call := fun call member =>
            answers.asks (listed call (List.mem_append_right _ member))
          rcases ended : resolveExactMissesBatched client misses exactLayerStaleRetries world with
            ⟨after, outcome⟩
          rw [ended] at resolved completed
          cases gathered : (gather (askMisses client) exactLayerStaleRetries world misses).values with
          | none =>
              obtain ⟨message, failed⟩ := resolved.failed gathered
              cases failed
              cases completed
          | some values =>
              cases resolved.completed values gathered
              cases completed
              obtain ⟨missed, missesExact⟩ :=
                gather_exact answers.toTruthful asks answers.recorded gathered
              refine ⟨hits ++ values, (updatesOf_append hits values).symm, ?_, fun read member =>
                (List.mem_append.mp member).elim (hitsExact read) (missesExact read)⟩
              rw [List.map_append]
              exact (missed.append_left _).trans same
  refine ⟨?_, fun update member => ?_⟩
  · rw [← calledKeys, updatesOf, List.map_map]
    have keysOf := same.map fun call : ExactStakeRpcCall Value Hash =>
      (call.delegatorLower, call.blockNumber)
    rwa [List.map_map] at keysOf
  · obtain ⟨read, listed, rfl⟩ := List.mem_map.mp member
    exact ⟨read.1, read.2, exact read listed, rfl⟩

end Reads

/-! ## The rows -/

section Rows

variable {client : RpcClient Value Hash} {format : CallFormat Value Delegator}
  {contract : Delegator → ℤ → DelegatorState} {known : Set (CachedCall Value)}
  {world world' : RpcWorld Value Hash} {start table table' : Table (Address × ℤ) AuditedRow}
  {entries : List ((Address × ℤ) × AuditedRow)} {reconciledTotal : ℕ}

theorem toRat_u256ToDecimal (amount : ℕ) : (u256ToDecimal amount).toRat * 10 ^ 18 = amount :=
  div_mul_cancel₀ _ (by norm_num)

/-- **Every stake at its own block.**  `entries` are the rows at the start in some order, `table`
is what the updates find. -/
theorem reconcileExactStakeRows_exact (listing : Table.Listing entries start)
    (answers : AnswersFor client format contract (entries.map Prod.fst) known world.cache)
    (completed : ReconcileExactStakeRows client format (entries.map Prod.fst) world table world'
      table' reconciledTotal) :
    (∀ key ∈ start, ∀ delegator, format.addressFromStr key.1 = some delegator →
      ∀ stored, table.lookup key = some stored → ∃ row, table'.lookup key = some row ∧
        row.row.bondedPrincipal.toRat * 10 ^ 18 = (contract delegator key.2).bondedAmount ∧
        row.row.delegateAddress = (contract delegator key.2).delegateAddress ∧
        row = { stored with
          row := { stored.row with
            bondedPrincipal := row.row.bondedPrincipal
            delegateAddress := row.row.delegateAddress } }) ∧
    ∀ key, (key ∈ start → format.addressFromStr key.1 = none) →
      table'.lookup key = table.lookup key := by
  obtain ⟨updates, read, counted⟩ := completed
  obtain ⟨same, exact⟩ := exactStakeUpdates_exact answers read
  have updated := joinUpdates_of_countJoins counted
  have atStart : ∀ key, key ∈ entries.map Prod.fst ↔ key ∈ start := by
    intro key
    rw [← Finmap.lookup_isSome, Option.isSome_iff_exists, List.mem_map]
    constructor
    · rintro ⟨⟨_, row⟩, listed, rfl⟩
      exact ⟨row, (listing.mem_iff _ _).mp listed⟩
    · rintro ⟨row, found⟩
      exact ⟨(key, row), (listing.mem_iff _ _).mpr found, rfl⟩
  have updatedKeys : ∀ key, (∃ update ∈ updates, update.key = key) ↔
      key ∈ start ∧ (format.addressFromStr key.1).isSome := by
    intro key
    rw [← atStart, ← List.mem_map, same.mem_iff, List.mem_filter]
  refine ⟨fun key present delegator parsed stored found => ?_, fun key absent => ?_⟩
  · rcases lookup_joinUpdates ExactStakeUpdate.write_write updated key with
      ⟨none, _⟩ | ⟨update, decides, written⟩
    · obtain ⟨update, listed, own⟩ := (updatedKeys key).mpr ⟨present, by rw [parsed]; rfl⟩
      rw [deciding_eq_nil_iff, flatten_toChunks] at none
      exact absurd own (none update listed)
    · obtain ⟨listed, own⟩ := mem_of_mem_deciding decides
      rw [flatten_toChunks] at listed
      obtain ⟨call, state, ⟨other, otherParsed, rfl⟩, rfl⟩ := exact update listed
      obtain rfl : (call.delegatorLower, call.blockNumber) = key := own
      cases parsed.symm.trans otherParsed
      rw [found] at written
      exact ⟨_, written, toRat_u256ToDecimal _, rfl, rfl⟩
  · rcases lookup_joinUpdates ExactStakeUpdate.write_write updated key with
      ⟨_, kept⟩ | ⟨update, decides, _⟩
    · exact kept
    · obtain ⟨listed, own⟩ := mem_of_mem_deciding decides
      rw [flatten_toChunks] at listed
      obtain ⟨present, parsed⟩ := (updatedKeys key).mp ⟨update, listed, own⟩
      rw [absent present] at parsed
      cases parsed

/-- The pass returns the number of the rows it has rewritten. -/
theorem reconciledTotal_eq (listing : Table.Listing entries start)
    (answers : AnswersFor client format contract (entries.map Prod.fst) known world.cache)
    (completed : ReconcileExactStakeRows client format (entries.map Prod.fst) world start world'
      table' reconciledTotal) :
    reconciledTotal =
      (start.keys.filter fun key => (format.addressFromStr key.1).isSome).card := by
  obtain ⟨updates, read, counted⟩ := completed
  obtain ⟨same, _⟩ := exactStakeUpdates_exact answers read
  have distinct : (updates.map ExactStakeUpdate.key).Nodup :=
    same.nodup_iff.mpr (listing.nodup.filter _)
  have total := countJoins_eq (by rwa [flatten_toChunks]) counted
  have present : ∀ update ∈ updates, update.key ∈ start := by
    intro update listed
    have atStart := (List.mem_filter.mp (same.mem_iff.mp (List.mem_map_of_mem listed))).1
    obtain ⟨⟨_, row⟩, member, own⟩ := List.mem_map.mp atStart
    rw [← own, ← Finmap.lookup_isSome, (listing.mem_iff _ row).mp member]
    rfl
  have all : updates.countP (fun update => decide (update.key ∈ start)) = updates.length :=
    List.countP_eq_length.mpr fun update listed => decide_eq_true (present update listed)
  rw [total, flatten_toChunks, Nat.zero_add, all, ← List.length_map ExactStakeUpdate.key,
    same.length_eq, ← List.countP_eq_length_filter, List.countP_map, listing.countP_eq]
  congr 1
  ext key
  simp only [Finset.mem_filter, Finmap.mem_keys, ← Finmap.lookup_isSome, Function.comp_apply]
  cases start.lookup key <;> simp

end Rows

/-! ### A hit, a stale read and a row that is skipped -/

section Lagging

/-- An archive that lags behind. -/
def lagging (_ : String) (_ : ℕ) : Except JsonRpcErrorBody ℕ :=
  .error ⟨-32000, "layer stale"⟩

/-- The answers to the first batch, then to the others. -/
def answersOf (called : ℕ) : String → ℕ → Except JsonRpcErrorBody ℕ :=
  if called = 0 then lagging else Codec.doubling

/-- An archive that has caught up at the second batch. -/
def catchingUp : RpcClient ℕ (List UInt8) where
  codec := Codec.numberCodec
  cacheOnly := false
  providers called := Provider.answering "archive" (answersOf called)
  decodeGetDelegator bytes :=
    match bytes with
    | [n] => .ok ⟨n.toNat, "0xo"⟩
    | _ => .error "decoding getDelegator eth_call return hex"

/-- Two delegators, with numbers for their calls. -/
def numbered : CallFormat ℕ String where
  addressFromStr address := if address = "junk" then none else some address
  params delegator _ := if delegator = "0xa" then 1 else 2

def stakeOf (delegator : String) (_ : ℤ) : DelegatorState :=
  ⟨if delegator = "0xa" then 2 else 4, "0xo"⟩

/-- The reads of both delegators. -/
def bothReads : Set (CachedCall ℕ) :=
  {⟨"eth_call", 1, some 1⟩, ⟨"eth_call", 2, some 1⟩}

/-- The answer for the first one is cached. -/
def firstCached : RpcWorld ℕ (List UInt8) where
  cache := Finmap.singleton (Codec.numberCodec.computeCallHash ⟨"eth_call", 1, some 1⟩)
    ⟨"eth_call", 1, some 1, [2], [2], "archive"⟩
  called := 0

def threeRows : List ((Address × ℤ) × AuditedRow) :=
  [(("0xa", 1), claimedRow), (("0xb", 1), claimedRow), (("junk", 1), claimedRow)]

/-- The updates of the two rows that have a delegator. -/
def bothUpdates : List ExactStakeUpdate :=
  [⟨"0xa", 1, u256ToDecimal 2, "0xo"⟩, ⟨"0xb", 1, u256ToDecimal 4, "0xo"⟩]

theorem exactStakeUpdates_threeRows :
    exactStakeUpdates catchingUp numbered (threeRows.map Prod.fst) firstCached =
      ((exactStakeUpdates catchingUp numbered (threeRows.map Prod.fst) firstCached).1,
        .ok bothUpdates) := by
  refine Prod.ext rfl ?_
  decide +kernel

theorem doubling_tells {call : CachedCall ℕ} {value : ℕ}
    (doubled : value = 2 * call.params) :
    TellsState catchingUp numbered stakeOf call (Codec.numberCodec.toVec value) := by
  rintro delegator blockNumber state rfl decoded
  cases decoded
  subst doubled
  by_cases first : delegator = "0xa"
  · simp [stakeOf, CallFormat.getDelegator, numbered, first]
  · simp [stakeOf, CallFormat.getDelegator, numbered, first]

theorem answersFor_threeRows :
    AnswersFor catchingUp numbered stakeOf (threeRows.map Prod.fst) bothReads
      firstCached.cache where
  served n call value served := by
    have answered := Codec.eq_answered_of_served (Provider.serves_answering _ _ _) served
    by_cases first : n = 0
    · simp [answersOf, first, lagging, Provider.answered] at answered
    · refine doubling_tells ?_
      simp only [answersOf, if_neg first, Codec.doubling, Provider.answered] at answered
      split at answered
      · next same =>
          split_ifs at same
          cases same
          cases answered
          rfl
      · cases answered
  noCollision := by
    rintro call (rfl | rfl) other (rfl | rfl) same
    · rfl
    · exact absurd same (by decide +kernel)
    · exact absurd same (by decide +kernel)
    · rfl
  recorded := by
    have only : ∀ hash row, firstCached.cache.lookup hash = some row →
        hash = Codec.numberCodec.computeCallHash ⟨"eth_call", 1, some 1⟩ ∧
          row = ⟨"eth_call", 1, some 1, [2], [2], "archive"⟩ := by
      intro hash row found
      have member : hash ∈ firstCached.cache := Finmap.mem_iff.mpr ⟨row, found⟩
      obtain rfl := Finmap.mem_singleton _ _ _ |>.mp member
      rw [firstCached, Finmap.lookup_singleton_eq, Option.some.injEq] at found
      exact ⟨rfl, found.symm⟩
    refine ⟨fun hash row found => ?_, fun hash row found => ?_, fun hash row found => ?_⟩
    · obtain ⟨rfl, rfl⟩ := only hash row found
      rfl
    · obtain ⟨rfl, rfl⟩ := only hash row found
      exact Or.inl rfl
    · obtain ⟨rfl, rfl⟩ := only hash row found
      exact doubling_tells rfl
  asked key listed delegator parsed := by
    have block : key.2 = 1 := by
      simp only [threeRows, List.map_cons, List.map_nil, List.mem_cons, List.not_mem_nil,
        or_false] at listed
      rcases listed with rfl | rfl | rfl <;> rfl
    rw [CallFormat.getDelegator, block, numbered]
    dsimp only
    split_ifs
    · exact Or.inl rfl
    · exact Or.inr rfl

/-- One row is read from the cache, one after a retry, and one is left alone. -/
theorem reconcileExactStakeRows_exact_catchingUp :
    (∀ key ∈ Table.insertAll threeRows, ∀ delegator,
      numbered.addressFromStr key.1 = some delegator →
      ∀ stored, (Table.insertAll threeRows).lookup key = some stored → ∃ row,
        (applyUpdates ExactStakeUpdate.key ExactStakeUpdate.write
          (bothUpdates.toChunks updateChunk).flatten (Table.insertAll threeRows)).lookup key =
            some row ∧
        row.row.bondedPrincipal.toRat * 10 ^ 18 = (stakeOf delegator key.2).bondedAmount ∧
        row.row.delegateAddress = (stakeOf delegator key.2).delegateAddress ∧
        row = { stored with
          row := { stored.row with
            bondedPrincipal := row.row.bondedPrincipal
            delegateAddress := row.row.delegateAddress } }) ∧
    ∀ key, (key ∈ Table.insertAll threeRows → numbered.addressFromStr key.1 = none) →
      (applyUpdates ExactStakeUpdate.key ExactStakeUpdate.write
        (bothUpdates.toChunks updateChunk).flatten (Table.insertAll threeRows)).lookup key =
          (Table.insertAll threeRows).lookup key := by
  obtain ⟨total, counted⟩ := exists_countJoins (joinUpdates_applyUpdates
    ExactStakeUpdate.write_write (bothUpdates.toChunks updateChunk) (Table.insertAll threeRows)) 0
  exact reconcileExactStakeRows_exact (Table.listing_insertAll (by decide)) answersFor_threeRows
    ⟨bothUpdates, exactStakeUpdates_threeRows, counted⟩

end Lagging

end ProtocolExplorer.Staker
