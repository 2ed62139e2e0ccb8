import ProtocolExplorer.Lib.AnswerCache
import ProtocolExplorer.Rpc.BatchReplies
import ProtocolExplorer.Rpc.Routes

/-!
# Routes without interference

A caller that runs alone computes what the functions on the cache compute.

* `runAlone_singleCallCached`, `runAlone_batchCallCached` — **the processes refine the
  functions**, for any provider;
* `runAlone_multicallBatchCallCached` — **the two batches agree**: where every answer is there
  the one of `multicall.rs` returns the same bytes and leaves the same cache, otherwise it returns
  the first error, with a part of the cache.
-/

set_option autoImplicit false

namespace ProtocolExplorer.Rpc.Routes

open ProtocolExplorer.Lib

variable {Value Hash : Type} [DecidableEq Hash] {codec : Codec Value Hash}
  {w : RpcWorld Value Hash}

/-- The cache without the columns of the second provider. -/
def Shows (w : RpcWorld Value Hash) (cache : CallCache Value Hash) : Prop :=
  ∀ hash, (w.rpcCallCache.lookup hash).map (·.toCacheRow) = cache.lookup hash

/-- Every world shows some cache. -/
theorem exists_shows (w : RpcWorld Value Hash) : ∃ cache, Shows w cache := by
  suffices every : ∀ table : Table Hash (StoredRow Value Hash), ∃ cache : CallCache Value Hash,
      ∀ hash, (table.lookup hash).map (·.toCacheRow) = cache.lookup hash from every w.rpcCallCache
  intro table
  induction table using Finmap.induction_on with
  | H rows =>
    induction rows using AList.insertRec with
    | H0 => exact ⟨∅, fun hash => rfl⟩
    | IH key row rows _ inductionHypothesis =>
      obtain ⟨cache, same⟩ := inductionHypothesis
      rw [← Finmap.insert_toFinmap]
      refine ⟨cache.insert key row.toCacheRow, fun hash => ?_⟩
      by_cases here : hash = key
      · rw [here, Finmap.lookup_insert, Finmap.lookup_insert]
        rfl
      · rw [Finmap.lookup_insert_of_ne _ here, Finmap.lookup_insert_of_ne _ here]
        exact same hash

/-- What a process computes when it runs alone. -/
abbrev alone {α : Type} (codec : Codec Value Hash) (route : Route Value Hash α)
    (w : RpcWorld Value Hash) : Option (RpcWorld Value Hash × α) :=
  route.runAlone (RpcWorld.act codec.null) w

/-- The world after an answer was stored. -/
def stored (codec : Codec Value Hash) (provider : String) (call : CachedCall Value) (value : Value)
    (w : RpcWorld Value Hash) : RpcWorld Value Hash :=
  { w with
    rpcCallCache := Table.insertNew w.rpcCallCache (codec.computeCallHash call)
      (rowOf codec provider none call value) }

section Statements

@[simp] theorem alone_pure {α : Type} (result : α) :
    alone codec (pure result) w = some (w, result) := rfl

theorem alone_bind {α β : Type} (route : Route Value Hash α) (rest : α → Route Value Hash β) :
    alone codec (route >>= rest) w =
      (alone codec route w).bind fun (w', result) => alone codec (rest result) w' :=
  Process.runAlone_bind route rest w

theorem alone_bind_of {α β : Type} {route : Route Value Hash α} {rest : α → Route Value Hash β}
    {w' : RpcWorld Value Hash} {result : α} (ran : alone codec route w = some (w', result)) :
    alone codec (route >>= rest) w = alone codec (rest result) w' := by
  rw [alone_bind, ran]
  rfl

theorem alone_map {α β : Type} (route : Route Value Hash α) (f : α → β) :
    alone codec (f <$> route) w =
      (alone codec route w).map fun (w', result) => (w', f result) := by
  refine (alone_bind route fun result => pure (f result)).trans ?_
  cases alone codec route w <;> rfl

@[simp] theorem alone_get (hash : Hash) :
    alone codec (get hash) w = some (w, w.rpcCallCache.lookup hash) := rfl

@[simp] theorem alone_cacheOnlyMode :
    alone codec cacheOnlyMode w = some (w, w.cacheOnly) := rfl

@[simp] theorem alone_callProvider (provider method : String) (params : Value) :
    alone codec (callProvider provider method params) w =
      some (w, (w.provider provider).call codec.null method params) := rfl

@[simp] theorem alone_callBatch (provider : String) (batch : List (String × Value)) :
    alone codec (callBatch provider batch) w =
      some (w, (w.provider provider).callBatch codec.null batch) := rfl

@[simp] theorem alone_store (provider : String) (call : CachedCall Value) (value : Value) :
    alone codec (store (codec.computeCallHash call) (rowOf codec provider none call value)) w =
      some (stored codec provider call value w, ⟨⟩) := rfl

end Statements

/-! ## Single calls -/

theorem shows_stored {cache : CallCache Value Hash} (shows : Shows w cache) (provider : String)
    (call : CachedCall Value) (value : Value) :
    Shows (stored codec provider call value w)
      (codec.store (w.provider provider) call value cache) := by
  intro hash
  rw [stored, Codec.store, Table.insertNew, Table.insertNew, Table.lookup_upsert,
    Table.lookup_upsert]
  split
  · have here := shows (codec.computeCallHash call)
    rw [← here]
    cases w.rpcCallCache.lookup (codec.computeCallHash call) <;> rfl
  · exact shows hash

/-- **`single_call_cached`, run alone, is the function on the cache.** -/
theorem runAlone_singleCallCached {cache : CallCache Value Hash} (shows : Shows w cache)
    (provider : String) (call : CachedCall Value) :
    ∃ w', alone codec (singleCallCached codec provider call) w =
        some (w', (codec.singleCallCached w.cacheOnly (w.provider provider) call cache).2) ∧
      Shows w' (codec.singleCallCached w.cacheOnly (w.provider provider) call cache).1 := by
  have here := shows (codec.computeCallHash call)
  rw [singleCallCached, alone_bind, alone_get, Option.bind_some, Codec.singleCallCached, ← here]
  cases w.rpcCallCache.lookup (codec.computeCallHash call) with
  | some row => exact ⟨w, rfl, shows⟩
  | none =>
      simp only [Option.map_none, alone_bind, alone_cacheOnlyMode, Option.bind_some]
      cases w.cacheOnly with
      | true => exact ⟨w, rfl, shows⟩
      | false =>
          simp only [Bool.false_eq_true, if_false, alone_bind, alone_callProvider,
            Option.bind_some]
          cases (w.provider provider).call codec.null call.method call.params with
          | error err => exact ⟨w, rfl, shows⟩
          | ok value => exact ⟨_, rfl, shows_stored shows provider call value⟩

/-! ## Batches -/

/-- The calls of a batch with what is found for them. -/
def probed (codec : Codec Value Hash) (w : RpcWorld Value Hash) (requests : List (CachedCall Value)) :
    List (CachedCall Value × Option (StoredRow Value Hash)) :=
  requests.map fun call => (call, w.rpcCallCache.lookup (codec.computeCallHash call))

theorem alone_probe (requests : List (CachedCall Value)) :
    alone codec (probe codec requests) w = some (w, probed codec w requests) := by
  induction requests with
  | nil => rfl
  | cons call rest inductionHypothesis =>
      rw [probe, alone_bind_of (alone_get _), alone_bind_of inductionHypothesis]
      rfl

/-- The misses of a batch, without their positions. -/
theorem misses_probed {cache : CallCache Value Hash} (shows : Shows w cache)
    (requests : List (CachedCall Value)) :
    misses (probed codec w requests) = (codec.missIndices requests cache).map Prod.fst := by
  rw [Codec.map_fst_missIndices, misses, probed, List.filter_map, List.map_map]
  refine (List.map_id _).trans (List.filter_congr fun call _ => ?_)
  rw [← shows, Option.isNone_map]
  rfl

/-- The slots of a batch before the provider was asked. -/
def slots (codec : Codec Value Hash) (cache : CallCache Value Hash)
    (requests : List (CachedCall Value)) :
    List (Option (Except CoreError (CrossCheckOutcome Hash))) :=
  requests.map fun call =>
    (cache.lookup (codec.computeCallHash call)).map fun row => .ok (codec.hit call row)

/-- The misses among calls whose positions count from an offset. -/
def missIndicesFrom (codec : Codec Value Hash) (cache : CallCache Value Hash) (offset : ℕ)
    (requests : List (CachedCall Value)) : List (CachedCall Value × ℕ) :=
  (requests.zipIdx offset).filter fun (call, _) =>
    (cache.lookup (codec.computeCallHash call)).isNone

theorem missIndicesFrom_hit {found : CallCache Value Hash} {call : CachedCall Value}
    {row : CacheRow Value Hash} (hit : found.lookup (codec.computeCallHash call) = some row)
    (offset : ℕ) (rest : List (CachedCall Value)) :
    missIndicesFrom codec found offset (call :: rest) =
      missIndicesFrom codec found (offset + 1) rest := by
  rw [missIndicesFrom, List.zipIdx_cons, List.filter_cons_of_neg (by simp [hit])]
  rfl

theorem missIndicesFrom_miss {found : CallCache Value Hash} {call : CachedCall Value}
    (miss : found.lookup (codec.computeCallHash call) = none) (offset : ℕ)
    (rest : List (CachedCall Value)) :
    missIndicesFrom codec found offset (call :: rest) =
      (call, offset) :: missIndicesFrom codec found (offset + 1) rest := by
  rw [missIndicesFrom, List.zipIdx_cons, List.filter_cons_of_pos (by simp [miss])]
  rfl

/-- The loop over the results fills the slots from the front. -/
theorem alone_fillMisses {start : RpcWorld Value Hash} {found : CallCache Value Hash}
    (base : Shows start found) (p : Provider Value) (requests : List (CachedCall Value)) :
    ∀ (before : List (Option (Except CoreError (CrossCheckOutcome Hash))))
      {w : RpcWorld Value Hash} {cache : CallCache Value Hash}
      {results : List (Except CoreError Value)}, Shows w cache →
      results.length = (missIndicesFrom codec found before.length requests).length →
      ∃ w' cache' outcomes,
        alone codec (fillMisses codec p.name (probed codec start requests) results) w =
          some (w', some outcomes) ∧
        ((missIndicesFrom codec found before.length requests).zip results).foldl
            (codec.fillMiss p) (cache, before ++ slots codec found requests) =
          (cache', before ++ outcomes.map some) ∧ Shows w' cache' := by
  induction requests with
  | nil =>
      intro before w cache results shows length
      exact ⟨w, cache, [], rfl, rfl, shows⟩
  | cons call rest inductionHypothesis =>
      intro before w cache results shows length
      have here := base (codec.computeCallHash call)
      -- the slot of this call is filled, and the walk goes on behind it
      have next : ∀ outcome : Except CoreError (CrossCheckOutcome Hash),
          (before ++ [some outcome]).length = before.length + 1 := fun _ => by simp
      have behind : ∀ (outcome : Except CoreError (CrossCheckOutcome Hash))
          (outcomes : List (Except CoreError (CrossCheckOutcome Hash))),
          before ++ [some outcome] ++ outcomes.map some =
            before ++ (outcome :: outcomes).map some := fun _ _ => by simp
      cases looked : start.rpcCallCache.lookup (codec.computeCallHash call) with
      | some row =>
          rw [looked, Option.map_some] at here
          have entry : probed codec start (call :: rest) =
              (call, some row) :: probed codec start rest := by
            rw [probed, List.map_cons, looked]
            rfl
          rw [missIndicesFrom_hit here.symm] at length ⊢
          obtain ⟨w', cache', outcomes, ran, folded, shows'⟩ := inductionHypothesis
            (before ++ [some (.ok (codec.hit call row.toCacheRow))]) shows
            (by rw [next]; exact length)
          refine ⟨w', cache', .ok (codec.hit call row.toCacheRow) :: outcomes, ?_, ?_, shows'⟩
          · rw [entry, fillMisses, alone_bind_of ran]
            rfl
          · rw [next, behind, List.append_assoc] at folded
            rw [slots, List.map_cons, ← here]
            exact folded
      | none =>
          rw [looked, Option.map_none] at here
          have entry : probed codec start (call :: rest) =
              (call, none) :: probed codec start rest := by
            rw [probed, List.map_cons, looked]
            rfl
          rw [missIndicesFrom_miss here.symm] at length ⊢
          obtain ⟨result, results, rfl⟩ := List.exists_cons_of_length_pos
            (by rw [length]; exact Nat.succ_pos _)
          rw [List.length_cons, List.length_cons, Nat.add_right_cancel_iff] at length
          have filled : ∀ outcome : Except CoreError (CrossCheckOutcome Hash),
              (before ++ slots codec found (call :: rest)).set before.length (some outcome) =
                before ++ [some outcome] ++ slots codec found rest := by
            intro outcome
            rw [slots, List.map_cons, ← here, List.set_append_right _ _ (le_refl _), Nat.sub_self,
              List.append_assoc]
            rfl
          rw [List.zip_cons_cons, List.foldl_cons]
          cases result with
          | error err =>
              obtain ⟨w', cache', outcomes, ran, folded, shows'⟩ := inductionHypothesis
                (before ++ [some (.error err)]) shows (by rw [next]; exact length)
              refine ⟨w', cache', .error err :: outcomes, ?_, ?_, shows'⟩
              · rw [entry, fillMisses, alone_bind_of ran]
                rfl
              · rw [next, behind] at folded
                rw [Codec.fillMiss, filled]
                exact folded
          | ok value =>
              obtain ⟨w', cache', outcomes, ran, folded, shows'⟩ := inductionHypothesis
                (before ++ [some (.ok (codec.hit call (codec.rowOf p call value)))])
                (shows_stored shows p.name call value) (by rw [next]; exact length)
              refine ⟨w', cache', .ok (codec.hit call (codec.rowOf p call value)) :: outcomes,
                ?_, ?_, shows'⟩
              · rw [entry, fillMisses, alone_bind_of (alone_store ..), alone_bind_of ran]
                rfl
              · rw [next, behind] at folded
                rw [Codec.fillMiss, filled]
                exact folded

/-- The loop over the results of all misses, and the unwrapping behind it. -/
theorem alone_filled {cache : CallCache Value Hash} (shows : Shows w cache) (provider : String)
    (requests : List (CachedCall Value)) (results : List (Except CoreError Value))
    (length : results.length = (codec.missIndices requests cache).length) :
    ∃ w' cache' outcomes,
      alone codec (fillMisses codec provider (probed codec w requests) results) w =
        some (w', some outcomes) ∧
      ((codec.missIndices requests cache).zip results).foldl
          (codec.fillMiss (w.provider provider)) (cache, slots codec cache requests) =
        (cache', outcomes.map some) ∧ Shows w' cache' :=
  alone_fillMisses shows (w.provider provider) requests [] shows length

/-- **`batch_call_cached`, run alone, is the function on the cache.** -/
theorem runAlone_batchCallCached {cache : CallCache Value Hash} (shows : Shows w cache)
    (provider : String) (requests : List (CachedCall Value)) :
    ∃ w', alone codec (batchCallCached codec provider requests) w =
        some (w', (codec.batchCallCached w.cacheOnly (w.provider provider) requests cache).2) ∧
      Shows w' (codec.batchCallCached w.cacheOnly (w.provider provider) requests cache).1 := by
  have sameMisses := @misses_probed _ _ _ codec w cache shows requests
  have fill := @alone_filled _ _ _ codec w cache shows provider requests
  rw [batchCallCached, alone_bind_of (alone_probe requests)]
  unfold Codec.batchCallCached
  by_cases empty : requests = []
  · subst empty
    exact ⟨w, rfl, shows⟩
  rw [if_neg (by simpa using empty)]
  show ∃ w', _ = some (w', Except.map _ (codec.answerMisses _ _ _ _ (slots ..)).2) ∧
    Shows w' (codec.answerMisses _ _ _ _ (slots ..)).1
  unfold Codec.answerMisses
  generalize codec.missIndices requests cache = missed at sameMisses fill
  rw [sameMisses]
  cases missed with
  | nil =>
      obtain ⟨w', cache', outcomes, ran, folded, shows'⟩ := fill [] rfl
      obtain ⟨rfl, unwrapped⟩ := Prod.mk.injEq .. ▸ folded
      refine ⟨w', ?_, shows'⟩
      show alone codec (_ <$> _) w = _
      rw [alone_map, ran]
      refine congrArg (fun filled => some (w', Except.ok filled)) ?_
      rw [show slots codec cache requests = outcomes.map some from unwrapped]
      exact (Codec.mapM_id_map_some outcomes).symm
  | cons first others =>
      obtain ⟨firstMiss, position⟩ := first
      show ∃ w', alone codec (cacheOnlyMode >>= _) w = _ ∧ _
      rw [alone_bind_of alone_cacheOnlyMode]
      cases w.cacheOnly with
      | true => exact ⟨w, rfl, shows⟩
      | false =>
          simp only [Bool.false_eq_true, if_false]
          rw [alone_bind_of (alone_callBatch ..)]
          have sameBatch : (firstMiss.method, firstMiss.params) ::
              (others.map Prod.fst).map (fun miss => (miss.method, miss.params)) =
                ((firstMiss, position) :: others).map fun miss => (miss.1.method, miss.1.params) := by
            rw [List.map_cons, List.map_map]
            rfl
          rw [List.map_cons, sameBatch]
          cases called : (w.provider provider).callBatch codec.null
              (((firstMiss, position) :: others).map fun miss =>
                (miss.1.method, miss.1.params)) with
          | error err => exact ⟨w, rfl, shows⟩
          | ok results =>
              have length := Provider.length_callBatch called
              rw [List.length_map] at length
              obtain ⟨w', cache', outcomes, ran, folded, shows'⟩ := fill results length
              dsimp only
              rw [folded]
              refine ⟨w', ?_, shows'⟩
              rw [alone_map, ran]
              refine congrArg (fun filled => some (w', Except.ok filled)) ?_
              exact (Codec.mapM_id_map_some outcomes).symm

/-! ## The batch of `multicall.rs` -/

theorem extends_stored (provider : String) (call : CachedCall Value) (value : Value) :
    CacheExtends w.rpcCallCache (stored codec provider call value w).rpcCallCache := by
  intro hash row found
  rw [stored, Table.insertNew, Table.lookup_upsert]
  split
  · next same => rw [← same, found, Option.getD_some]
  · exact found

theorem extends_fillMisses {provider : String}
    {entries : List (CachedCall Value × Option (StoredRow Value Hash))} :
    ∀ {w w' : RpcWorld Value Hash} {results : List (Except CoreError Value)}
      {filled : Option (List (Except CoreError (CrossCheckOutcome Hash)))},
      alone codec (fillMisses codec provider entries results) w = some (w', filled) →
        CacheExtends w.rpcCallCache w'.rpcCallCache := by
  induction entries with
  | nil =>
      intro w w' results filled ran
      cases ran
      exact CacheExtends.refl _
  | cons entry rest inductionHypothesis =>
      intro w w' results filled ran
      obtain ⟨call, found⟩ := entry
      -- what follows a statement is the walk over the rest
      have later : ∀ {w : RpcWorld Value Hash} {results : List (Except CoreError Value)}
          {f : Option (List (Except CoreError (CrossCheckOutcome Hash))) →
            Option (List (Except CoreError (CrossCheckOutcome Hash)))},
          alone codec (fillMisses codec provider rest results >>= fun others => pure (f others)) w =
            some (w', filled) → CacheExtends w.rpcCallCache w'.rpcCallCache := by
        intro w results f ran
        rw [alone_bind] at ran
        obtain ⟨⟨w₁, others⟩, walked, ended⟩ := Option.bind_eq_some_iff.mp ran
        cases ended
        exact inductionHypothesis walked
      cases found with
      | some row => exact later ran
      | none =>
          cases results with
          | nil =>
              cases ran
              exact CacheExtends.refl _
          | cons result results =>
              cases result with
              | error err => exact later ran
              | ok value =>
                  rw [fillMisses, alone_bind_of (alone_store ..)] at ran
                  exact (extends_stored provider call value).trans (later ran)

/-- The bytes of all outcomes, or the first error. -/
def blobs (outcomes : List (Except CoreError (CrossCheckOutcome Hash))) :
    Except CoreError (List (List UInt8)) :=
  outcomes.mapM fun outcome => outcome.map (·.responseBytes)

omit [DecidableEq Hash] in
theorem blobs_ok (outcome : CrossCheckOutcome Hash)
    (outcomes : List (Except CoreError (CrossCheckOutcome Hash))) :
    blobs (.ok outcome :: outcomes) = (blobs outcomes).map (outcome.responseBytes :: ·) := by
  rw [blobs, List.mapM_cons]
  show Except.bind (.ok outcome.responseBytes) _ = _
  unfold blobs
  cases outcomes.mapM fun outcome => outcome.map (·.responseBytes) <;> rfl

/-- Up to the first error the two loops do the same. -/
theorem alone_fillUntilError {provider : String}
    {entries : List (CachedCall Value × Option (StoredRow Value Hash))} :
    ∀ {w w' : RpcWorld Value Hash} {results : List (Except CoreError Value)}
      {outcomes : List (Except CoreError (CrossCheckOutcome Hash))},
      alone codec (fillMisses codec provider entries results) w = some (w', some outcomes) →
      ∃ w'', alone codec (fillUntilError codec provider entries results) w =
          some (w'', (blobs outcomes).map some) ∧
        CacheExtends w''.rpcCallCache w'.rpcCallCache ∧
        ((∀ outcome ∈ outcomes, ∃ found, outcome = .ok found) → w'' = w') := by
  induction entries with
  | nil =>
      intro w w' results outcomes ran
      cases ran
      exact ⟨w, rfl, CacheExtends.refl _, fun _ => rfl⟩
  | cons entry rest inductionHypothesis =>
      intro w w' results outcomes ran
      obtain ⟨call, found⟩ := entry
      cases found with
      | some row =>
          rw [fillMisses, alone_bind] at ran
          obtain ⟨⟨w₁, others⟩, walked, ended⟩ := Option.bind_eq_some_iff.mp ran
          cases others with
          | none => cases ended
          | some tail =>
              cases ended
              obtain ⟨w'', ran', extended, same⟩ := inductionHypothesis walked
              refine ⟨w'', ?_, extended, fun allOk => same fun outcome later =>
                allOk outcome (List.mem_cons_of_mem _ later)⟩
              rw [fillUntilError, alone_bind_of ran', blobs_ok]
              cases blobs tail <;> rfl
      | none =>
          cases results with
          | nil => cases ran
          | cons result results =>
              cases result with
              | error err =>
                  have extended := extends_fillMisses ran
                  rw [fillMisses, alone_bind] at ran
                  obtain ⟨⟨w₁, others⟩, walked, ended⟩ := Option.bind_eq_some_iff.mp ran
                  cases others with
                  | none => cases ended
                  | some tail =>
                      cases ended
                      refine ⟨w, rfl, extended, fun allOk => ?_⟩
                      obtain ⟨_, impossible⟩ := allOk _ (List.mem_cons_self ..)
                      cases impossible
              | ok value =>
                  rw [fillMisses, alone_bind_of (alone_store ..), alone_bind] at ran
                  obtain ⟨⟨w₁, others⟩, walked, ended⟩ := Option.bind_eq_some_iff.mp ran
                  cases others with
                  | none => cases ended
                  | some tail =>
                      cases ended
                      obtain ⟨w'', ran', extended, same⟩ := inductionHypothesis walked
                      refine ⟨w'', ?_, extended, fun allOk => same fun outcome later =>
                        allOk outcome (List.mem_cons_of_mem _ later)⟩
                      rw [fillUntilError, alone_bind_of (alone_store ..), alone_bind_of ran',
                        blobs_ok]
                      cases blobs tail <;> rfl

/-- **The two batches agree.**  Where `batch_call_cached` of `cross_check.rs` has an outcome for
every request, the one of `multicall.rs` returns their bytes and leaves the same world, or the
first error among them and a part of the cache; where the whole batch fails, both fail. -/
theorem runAlone_multicallBatchCallCached {w' : RpcWorld Value Hash} {provider : String}
    {requests : List (CachedCall Value)}
    {result : Except CoreError (Option (List (Except CoreError (CrossCheckOutcome Hash))))}
    (ran : alone codec (batchCallCached codec provider requests) w = some (w', result)) :
    (∃ outcomes, result = .ok (some outcomes) ∧ ∃ w'',
        alone codec (multicallBatchCallCached codec provider requests) w =
          some (w'', (blobs outcomes).map some) ∧
        CacheExtends w''.rpcCallCache w'.rpcCallCache ∧
        ((∀ outcome ∈ outcomes, ∃ found, outcome = .ok found) → w'' = w')) ∨
      ∃ err err', result = .error err ∧ w' = w ∧
        alone codec (multicallBatchCallCached codec provider requests) w =
          some (w, .error err') ∧ (w.cacheOnly = false → err' = err) := by
  rw [batchCallCached, alone_bind_of (alone_probe requests)] at ran
  rw [multicallBatchCallCached, alone_bind_of (alone_probe requests)]
  obtain ⟨cache, shows⟩ := exists_shows w
  have sameMisses := @misses_probed _ _ _ codec w cache shows requests
  -- with a result for each miss, both loops get through or stop at an error
  have both : ∀ results : List (Except CoreError Value),
      results.length = (codec.missIndices requests cache).length →
      alone codec ((fun filled => (.ok filled : Except CoreError _)) <$>
        fillMisses codec provider (probed codec w requests) results) w = some (w', result) →
      ∃ outcomes, result = .ok (some outcomes) ∧ ∃ w'',
        alone codec (fillUntilError codec provider (probed codec w requests) results) w =
          some (w'', (blobs outcomes).map some) ∧
        CacheExtends w''.rpcCallCache w'.rpcCallCache ∧
        ((∀ outcome ∈ outcomes, ∃ found, outcome = .ok found) → w'' = w') := by
    intro results length walked
    obtain ⟨w₁, _, outcomes, filled, _, _⟩ := alone_filled shows provider requests results length
    rw [alone_map, filled] at walked
    cases walked
    exact ⟨outcomes, rfl, alone_fillUntilError filled⟩
  generalize misses (probed codec w requests) = missed at sameMisses ran ⊢
  cases missed with
  | nil =>
      have none : (codec.missIndices requests cache).length = 0 := by
        rw [← List.length_map Prod.fst, ← sameMisses]
        rfl
      exact Or.inl (both [] none.symm ran)
  | cons firstMiss others =>
      dsimp only at ran ⊢
      rw [alone_bind_of alone_cacheOnlyMode] at ran ⊢
      cases mode : w.cacheOnly with
      | true =>
          rw [mode] at ran
          cases ran
          exact Or.inr ⟨_, _, rfl, rfl, rfl, fun live => by cases live⟩
      | false =>
          simp only [mode, Bool.false_eq_true, if_false] at ran ⊢
          rw [alone_bind_of (alone_callBatch ..)] at ran ⊢
          cases called : (w.provider provider).callBatch codec.null
              ((firstMiss :: others).map fun miss => (miss.method, miss.params)) with
          | error err =>
              rw [called] at ran
              cases ran
              exact Or.inr ⟨err, err, rfl, rfl, rfl, fun _ => rfl⟩
          | ok results =>
              rw [called] at ran
              have length := Provider.length_callBatch called
              rw [List.length_map] at length
              dsimp only
              rw [if_neg (not_not.mpr length)]
              refine Or.inl (both results ?_ ran)
              rw [length, sameMisses, List.length_map]

/-- A batch with a hit, an error and a call behind it. -/
def hitErrorMiss : List (CachedCall ℕ) :=
  [⟨"eth_call", 1, none⟩, ⟨"eth_call", 7, none⟩, ⟨"eth_call", 2, some 9⟩]

/-- The archive, and a cache with the answer to the first call. -/
def warmWorld : RpcWorld ℕ (List UInt8) :=
  stored Codec.numberCodec "archive" ⟨"eth_call", 1, none⟩ 2
    ⟨∅, [], false, fun _ => Codec.archive, []⟩

theorem hitErrorMiss_agrees :
    ∃ w' outcomes, alone Codec.numberCodec
        (batchCallCached Codec.numberCodec "archive" hitErrorMiss) warmWorld =
          some (w', .ok (some outcomes)) ∧
      ∃ w'', alone Codec.numberCodec
          (multicallBatchCallCached Codec.numberCodec "archive" hitErrorMiss) warmWorld =
            some (w'', (blobs outcomes).map some) ∧
        CacheExtends w''.rpcCallCache w'.rpcCallCache := by
  have ran : alone Codec.numberCodec
      (batchCallCached Codec.numberCodec "archive" hitErrorMiss) warmWorld = some
        ((alone Codec.numberCodec (batchCallCached Codec.numberCodec "archive" hitErrorMiss)
          warmWorld).get (by decide +kernel)) := (Option.some_get _).symm
  have succeeded : ((alone Codec.numberCodec
      (batchCallCached Codec.numberCodec "archive" hitErrorMiss) warmWorld).get
        (by decide +kernel)).2.isOk = true := by decide +kernel
  rcases runAlone_multicallBatchCallCached ran with
    ⟨outcomes, same, w'', agrees, extended, _⟩ | ⟨err, _, failed, _⟩
  · exact ⟨_, outcomes, ran.trans (congrArg some (Prod.ext rfl same)), w'', agrees, extended⟩
  · cases (congrArg (·.isOk) failed).symm.trans succeeded

end ProtocolExplorer.Rpc.Routes
