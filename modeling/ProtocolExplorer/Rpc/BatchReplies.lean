import ProtocolExplorer.Rpc.CrossCheck

/-!
# Batches of any provider

A provider may answer only some requests of a batch, answer out of order or fail.  Whatever it
does, a batch call returns one result for each request, in the order of the requests.

* `batchCallCached_cases` — **a batch call fails and leaves the cache, or has a result for every
  request**;
* `records_batchCallCached` — what the answers tell about their calls, the cache and the results
  tell too.
-/

set_option autoImplicit false

namespace ProtocolExplorer.Rpc

open ProtocolExplorer.Lib

universe u v

variable {Value : Type u} {Hash : Type v}

/-- The call of a cached row. -/
def CacheRow.call (row : CacheRow Value Hash) : CachedCall Value :=
  ⟨row.method, row.params, row.blockNumber⟩

namespace Provider

variable {null : Value} {p : Provider Value} {batch : List (String × Value)}
  {results : List (Except CoreError Value)}

theorem length_callBatch (called : p.callBatch null batch = .ok results) :
    results.length = batch.length := by
  unfold callBatch at called
  split at called
  · next empty =>
      cases called
      rw [List.isEmpty_iff.mp empty, List.length_nil, List.length_nil]
  · cases posted : p.postBatch (batchRequests batch) with
    | error err =>
        rw [posted] at called
        cases called
    | ok responses =>
        rw [posted] at called
        cases called
        rw [length_writeAll, List.length_map]

/-- A value of a batch call is the result of a response with the id of the request. -/
theorem response_of_callBatch (called : p.callBatch null batch = .ok results) {position : ℕ}
    {value : Value} (found : results[position]? = some (.ok value)) :
    ∃ responses, p.postBatch (batchRequests batch) = .ok responses ∧
      ∃ response ∈ responses, response.id = some (position + 1) ∧ response.error = none ∧
        response.result.getD null = value := by
  unfold callBatch at called
  split at called
  · cases called
    cases found
  · cases posted : p.postBatch (batchRequests batch) with
    | error err =>
        rw [posted] at called
        cases called
    | ok responses =>
        rw [posted] at called
        cases called
        refine ⟨responses, rfl, ?_⟩
        rcases mem_of_getElem?_writeAll found with written | ⟨initial, _⟩
        · obtain ⟨response, arrived, slot⟩ := List.mem_filterMap.mp written
          refine ⟨response, arrived, ?_⟩
          unfold slotOf at slot
          split at slot
          · next index sameId =>
              obtain ⟨⟨method, params⟩, _, own⟩ := Option.map_eq_some_iff.mp slot
              obtain ⟨rfl, outcome⟩ := Prod.mk.injEq .. ▸ own
              refine ⟨sameId, ?_⟩
              unfold Provider.outcome at outcome
              split at outcome
              · cases outcome
              · next noError =>
                  cases outcome
                  exact ⟨noError, rfl⟩
          · cases slot
        · rw [List.getElem?_map] at initial
          obtain ⟨_, _, failed⟩ := Option.map_eq_some_iff.mp initial
          cases failed

end Provider

namespace Codec

variable [DecidableEq Hash] {codec : Codec Value Hash} {p : Provider Value} {cacheOnly : Bool}
  {cache after : CallCache Value Hash} {requests : List (CachedCall Value)}

/-- In some batch the provider gave the call this result. -/
def Served (codec : Codec Value Hash) (p : Provider Value) (call : CachedCall Value)
    (result : Except CoreError Value) : Prop :=
  ∃ (batch : List (String × Value)) (results : List (Except CoreError Value)) (position : ℕ),
    p.callBatch codec.null batch = .ok results ∧
      batch[position]? = some (call.method, call.params) ∧ results[position]? = some result

/-- A provider with fixed answers serves these. -/
theorem eq_answered_of_served {answer : String → Value → Except JsonRpcErrorBody Value}
    (serves : p.Serves codec.null answer) {call : CachedCall Value}
    {result : Except CoreError Value} (served : codec.Served p call result) :
    result = p.answered answer call.method call.params := by
  obtain ⟨batch, results, position, posted, asked, found⟩ := served
  rw [Provider.callBatch_of_serves serves] at posted
  cases posted
  rw [List.getElem?_map, asked] at found
  exact (Option.some.inj found).symm

/-- The results of a batch call and the cache it leaves. -/
structure BatchReplies (codec : Codec Value Hash) (p : Provider Value)
    (requests : List (CachedCall Value)) (cache after : CallCache Value Hash)
    (results : List (Except CoreError (CrossCheckOutcome Hash))) : Prop where
  length : results.length = requests.length
  replied : ∀ (position : ℕ) call result, requests[position]? = some call →
    results[position]? = some result →
    (∃ row, cache.lookup (codec.computeCallHash call) = some row ∧
        result = .ok (codec.hit call row)) ∨
      ∃ answer, codec.Served p call answer ∧
        result = answer.map fun value => codec.hit call (codec.rowOf p call value)
  stored : ∀ hash row, after.lookup hash = some row → cache.lookup hash = some row ∨
    ∃ call ∈ requests, ∃ value, codec.Served p call (.ok value) ∧
      hash = codec.computeCallHash call ∧ row = codec.rowOf p call value

/-- What the loop over the batch results fills. -/
theorem snd_foldl_fillMiss (answers : List ((CachedCall Value × ℕ) × Except CoreError Value))
    (slots : List (Option (Except CoreError (CrossCheckOutcome Hash)))) :
    (answers.foldl (codec.fillMiss p) (cache, slots)).2 =
      writeAll (answers.map fun answered => (answered.1.2, some (answered.2.map fun value =>
        codec.hit answered.1.1 (codec.rowOf p answered.1.1 value)))) slots := by
  induction answers generalizing cache slots with
  | nil => rfl
  | cons answered rest inductionHypothesis =>
      obtain ⟨⟨call, index⟩, result⟩ := answered
      rw [List.foldl_cons, List.map_cons, writeAll, List.foldl_cons]
      cases result with
      | ok value => exact inductionHypothesis _
      | error err => exact inductionHypothesis _

/-- A row of the cache was there, or stores an answer. -/
theorem lookup_foldl_fillMiss {answers : List ((CachedCall Value × ℕ) × Except CoreError Value)}
    {slots : List (Option (Except CoreError (CrossCheckOutcome Hash)))} {hash : Hash}
    {row : CacheRow Value Hash}
    (found : (answers.foldl (codec.fillMiss p) (cache, slots)).1.lookup hash = some row) :
    cache.lookup hash = some row ∨ ∃ answered ∈ answers, ∃ value, answered.2 = .ok value ∧
      hash = codec.computeCallHash answered.1.1 ∧ row = codec.rowOf p answered.1.1 value := by
  induction answers generalizing cache slots with
  | nil => exact Or.inl found
  | cons answered rest inductionHypothesis =>
      obtain ⟨⟨call, index⟩, result⟩ := answered
      rw [List.foldl_cons] at found
      rcases inductionHypothesis found with earlier | ⟨other, member, stored⟩
      · cases result with
        | error err => exact Or.inl earlier
        | ok value =>
            change (codec.store p call value cache).lookup hash = some row at earlier
            rw [store, Table.insertNew, Table.lookup_upsert] at earlier
            split_ifs at earlier with own
            · cases present : cache.lookup (codec.computeCallHash call) with
              | some stored =>
                  rw [present] at earlier
                  exact Or.inl (own ▸ present.trans earlier)
              | none =>
                  rw [present] at earlier
                  cases earlier
                  exact Or.inr ⟨_, List.mem_cons_self .., value, rfl, own, rfl⟩
            · exact Or.inl earlier
      · exact Or.inr ⟨other, List.mem_cons_of_mem _ member, stored⟩

/-- A miss is a request at its position that is not cached. -/
theorem mem_missIndices {call : CachedCall Value} {position : ℕ} :
    (call, position) ∈ codec.missIndices requests cache ↔
      requests[position]? = some call ∧ cache.lookup (codec.computeCallHash call) = none := by
  rw [missIndices, List.mem_filter, List.mem_zipIdx_iff_getElem?, Option.isNone_iff_eq_none]

/-- Each miss has an answer of the provider, and the misses are filled with these. -/
theorem answerMisses_cases {misses : List (CachedCall Value × ℕ)}
    {slots : List (Option (Except CoreError (CrossCheckOutcome Hash)))}
    {answered : Except CoreError (List (Option (Except CoreError (CrossCheckOutcome Hash))))}
    (called : codec.answerMisses cacheOnly p misses cache slots = (after, answered)) :
    (∃ err, answered = .error err ∧ after = cache) ∨
      ∃ answers : List ((CachedCall Value × ℕ) × Except CoreError Value),
        answers.map Prod.fst = misses ∧
        (∀ reply ∈ answers, codec.Served p reply.1.1 reply.2) ∧
        after = (answers.foldl (codec.fillMiss p) (cache, slots)).1 ∧
        answered = .ok (answers.foldl (codec.fillMiss p) (cache, slots)).2 := by
  unfold answerMisses at called
  split at called
  · cases called
    exact Or.inr ⟨[], rfl, fun _ nothing => absurd nothing List.not_mem_nil, rfl, rfl⟩
  · next first others =>
      split_ifs at called
      · cases called
        exact Or.inl ⟨_, rfl, rfl⟩
      · split at called
        · cases called
          exact Or.inl ⟨_, rfl, rfl⟩
        · next results posted =>
            cases called
            have sameLength := Provider.length_callBatch posted
            rw [List.length_map] at sameLength
            refine Or.inr ⟨_, List.map_fst_zip (le_of_eq sameLength.symm), ?_, rfl, rfl⟩
            intro reply member
            obtain ⟨position, placed⟩ := List.mem_iff_getElem?.mp member
            obtain ⟨miss, result⟩ := List.getElem?_zip_eq_some.mp placed
            refine ⟨_, results, position, posted, ?_, result⟩
            rw [List.getElem?_map, miss]
            rfl

/-- The slots that a batch fills: each holds the result of its request. -/
theorem slot_cases {answers : List ((CachedCall Value × ℕ) × Except CoreError Value)}
    (misses : answers.map Prod.fst = codec.missIndices requests cache)
    (served : ∀ reply ∈ answers, codec.Served p reply.1.1 reply.2) {position : ℕ}
    {call : CachedCall Value} (asked : requests[position]? = some call)
    {slot : Option (Except CoreError (CrossCheckOutcome Hash))}
    (found : (writeAll (answers.map fun answered => (answered.1.2, some (answered.2.map fun value =>
        codec.hit answered.1.1 (codec.rowOf p answered.1.1 value))))
      (requests.map fun call => (cache.lookup (codec.computeCallHash call)).map fun row =>
        .ok (codec.hit call row)))[position]? = some slot) :
    ∃ result, slot = some result ∧
      ((∃ row, cache.lookup (codec.computeCallHash call) = some row ∧
          result = .ok (codec.hit call row)) ∨
        ∃ answer, codec.Served p call answer ∧
          result = answer.map fun value => codec.hit call (codec.rowOf p call value)) := by
  rcases mem_of_getElem?_writeAll found with written | ⟨initial, unwritten⟩
  · obtain ⟨reply, member, own⟩ := List.mem_map.mp written
    obtain ⟨rfl, rfl⟩ := Prod.mk.injEq .. ▸ own
    have isMiss : reply.1 ∈ codec.missIndices requests cache :=
      misses ▸ List.mem_map_of_mem member
    have placed := (mem_missIndices.mp isMiss).1
    rw [asked] at placed
    cases placed
    exact ⟨_, rfl, Or.inr ⟨reply.2, served reply member, rfl⟩⟩
  · rw [List.getElem?_map, asked, Option.map_some, Option.some.injEq] at initial
    cases cached : cache.lookup (codec.computeCallHash call) with
    | some row =>
        rw [cached] at initial
        exact ⟨_, initial.symm, Or.inl ⟨row, rfl, rfl⟩⟩
    | none =>
        -- a miss is among the answers, so its slot was written
        have isMiss : (call, position) ∈ answers.map Prod.fst :=
          misses ▸ mem_missIndices.mpr ⟨asked, cached⟩
        obtain ⟨reply, member, own⟩ := List.mem_map.mp isMiss
        exact absurd (by rw [own]) (unwritten _ (List.mem_map_of_mem member))

theorem exists_map_some {α : Type*} {slots : List (Option α)}
    (full : ∀ slot ∈ slots, slot.isSome) : ∃ values : List α, slots = values.map some := by
  induction slots with
  | nil => exact ⟨[], rfl⟩
  | cons slot rest inductionHypothesis =>
      obtain ⟨values, rfl⟩ := inductionHypothesis fun s member => full s (List.mem_cons_of_mem _ member)
      obtain ⟨value, rfl⟩ := Option.isSome_iff_exists.mp (full slot (List.mem_cons_self ..))
      exact ⟨value :: values, rfl⟩

/-- **A batch call fails and leaves the cache, or has a result for every request.** -/
theorem batchCallCached_cases {answered :
      Except CoreError (Option (List (Except CoreError (CrossCheckOutcome Hash))))}
    (called : codec.batchCallCached cacheOnly p requests cache = (after, answered)) :
    (∃ err, answered = .error err ∧ after = cache) ∨
      ∃ results, answered = .ok (some results) ∧
        BatchReplies codec p requests cache after results := by
  unfold batchCallCached at called
  dsimp only at called
  split_ifs at called with empty
  · cases called
    rw [List.isEmpty_iff] at empty
    subst empty
    exact Or.inr ⟨[], rfl, ⟨rfl, fun _ _ _ nothing => absurd nothing (by simp),
      fun _ _ => Or.inl⟩⟩
  · rcases filled : codec.answerMisses cacheOnly p (codec.missIndices requests cache) cache
      (requests.map fun call => (cache.lookup (codec.computeCallHash call)).map fun row =>
        .ok (codec.hit call row)) with ⟨cache', replies⟩
    rw [filled] at called
    obtain ⟨rfl, rfl⟩ := Prod.mk.injEq .. ▸ called
    rcases answerMisses_cases filled with ⟨err, rfl, same⟩ | ⟨answers, misses, served, rfl, rfl⟩
    · exact Or.inl ⟨err, rfl, same⟩
    · refine Or.inr ?_
      rw [snd_foldl_fillMiss]
      have slots := @slot_cases _ _ _ codec p cache requests answers misses served
      have sameLength := length_writeAll (answers.map fun answered => (answered.1.2,
          some (answered.2.map fun value => codec.hit answered.1.1
            (codec.rowOf p answered.1.1 value))))
        (requests.map fun call => (cache.lookup (codec.computeCallHash call)).map fun row =>
          Except.ok (codec.hit call row))
      generalize writeAll _ _ = filled at slots sameLength
      rw [List.length_map] at sameLength
      have full : ∀ slot ∈ filled, slot.isSome := by
        intro slot member
        obtain ⟨position, placed⟩ := List.mem_iff_getElem?.mp member
        have inside : position < requests.length :=
          sameLength ▸ (List.getElem?_eq_some_iff.mp placed).1
        obtain ⟨result, rfl, _⟩ := slots (List.getElem?_eq_getElem inside) placed
        rfl
      obtain ⟨results, rfl⟩ := exists_map_some full
      refine ⟨results, congrArg Except.ok (mapM_id_map_some results), ?_, ?_, ?_⟩
      · rwa [List.length_map] at sameLength
      · intro position call result asked found
        have placed : (results.map some)[position]? = some (some result) := by
          rw [List.getElem?_map, found, Option.map_some]
        obtain ⟨_, same, replied⟩ := slots asked placed
        cases same
        exact replied
      · intro hash row found
        rcases lookup_foldl_fillMiss found with cached | ⟨reply, member, value, own, rfl, rfl⟩
        · exact Or.inl cached
        · have isMiss : reply.1 ∈ codec.missIndices requests cache :=
            misses ▸ List.mem_map_of_mem member
          refine Or.inr ⟨reply.1.1, List.mem_of_getElem? (mem_missIndices.mp isMiss).1, value, ?_,
            rfl, rfl⟩
          exact own ▸ served reply member

/-! ## What the answers tell -/

/-- The rows of a cache are stored under the hashes of known calls, with bytes that tell the
truth about them. -/
structure Records (codec : Codec Value Hash) (known : Set (CachedCall Value))
    (tells : CachedCall Value → List UInt8 → Prop) (cache : CallCache Value Hash) : Prop where
  keyed : ∀ hash row, cache.lookup hash = some row → hash = codec.computeCallHash row.call
  known : ∀ hash row, cache.lookup hash = some row → row.call ∈ known
  tells : ∀ hash row, cache.lookup hash = some row → tells row.call row.responseBytes

section Records

variable {known : Set (CachedCall Value)} {tells : CachedCall Value → List UInt8 → Prop}

/-- The row under the hash of a known call is its own. -/
theorem Records.tells_of_lookup (records : codec.Records known tells cache)
    (noCollision : Set.InjOn codec.computeCallHash known) {call : CachedCall Value}
    (asked : call ∈ known) {row : CacheRow Value Hash}
    (found : cache.lookup (codec.computeCallHash call) = some row) :
    tells call row.responseBytes := by
  have own : call = row.call :=
    noCollision asked (records.known _ row found) (records.keyed _ row found)
  rw [own]
  exact records.tells _ row found

/-- **A batch call keeps a cache truthful**, and its outcomes are. -/
theorem records_batchCallCached {results : List (Except CoreError (CrossCheckOutcome Hash))}
    (records : codec.Records known tells cache)
    (noCollision : Set.InjOn codec.computeCallHash known)
    (asked : ∀ call ∈ requests, call ∈ known)
    (served : ∀ call value, codec.Served p call (.ok value) → tells call (codec.toVec value))
    (replies : BatchReplies codec p requests cache after results) :
    codec.Records known tells after ∧
      ∀ (position : ℕ) call outcome, requests[position]? = some call →
        results[position]? = some (.ok outcome) → tells call outcome.responseBytes := by
  refine ⟨⟨?_, ?_, ?_⟩, ?_⟩
  · intro hash row found
    rcases replies.stored hash row found with cached | ⟨call, _, value, _, rfl, rfl⟩
    · exact records.keyed hash row cached
    · rfl
  · intro hash row found
    rcases replies.stored hash row found with cached | ⟨call, listed, value, _, rfl, rfl⟩
    · exact records.known hash row cached
    · exact asked call listed
  · intro hash row found
    rcases replies.stored hash row found with cached | ⟨call, _, value, answered, rfl, rfl⟩
    · exact records.tells hash row cached
    · exact served call value answered
  · intro position call outcome placed result
    rcases replies.replied position call _ placed result with
      ⟨row, cached, same⟩ | ⟨answer, answered, same⟩
    · cases same
      exact records.tells_of_lookup noCollision (asked call (List.mem_of_getElem? placed)) cached
    · cases answer with
      | error err => cases same
      | ok value =>
          cases same
          exact served call value answered

end Records

end Codec

end ProtocolExplorer.Rpc
