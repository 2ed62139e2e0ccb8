import ProtocolExplorer.Rpc.Provider

/-!
# Responses and requests of a batch

A node may send the responses of a batch permuted, some of them missing or twice, and with ids
that no request has.  A response names its request by the id alone.

* `callBatch_demultiplexes` — **the result of a request is the outcome of the last response with its
  id, and an error when there is none; the order of responses with distinct ids does not matter**.
-/

set_option autoImplicit false

namespace ProtocolExplorer.Rpc

open ProtocolExplorer.Lib

universe u

variable {Value : Type u}

/-- What `serde_json::from_str` reads. -/
structure ResponseFormat (Value : Type u) where
  array : String → Option (List (JsonRpcResponse Value))
  single : String → Option (JsonRpcResponse Value)

/-- A response array; some servers send a single object for a batch of one. -/
def ResponseFormat.batch (format : ResponseFormat Value) (text : String) :
    Option (List (JsonRpcResponse Value)) :=
  match format.array text with
  | some responses => some responses
  | none => (format.single text).map fun response => [response]

/-- The texts that posts come back with. -/
structure Http (Value : Type u) where
  post : JsonRpcRequest Value → Except CoreError String
  postBatch : List (JsonRpcRequest Value) → Except CoreError String

/-- The provider that parses these texts. -/
def Http.provider (http : Http Value) (format : ResponseFormat Value) (name : String) :
    Provider Value where
  name := name
  post request := (http.post request).bind fun text =>
    match format.single text with
    | some response => .ok response
    | none => .error (.jsonRpc name request.method (-32700) ("malformed response: " ++ text))
  postBatch requests := (http.postBatch requests).bind fun text =>
    match format.batch text with
    | some responses => .ok responses
    | none => .error (.jsonRpc name "call_batch" (-32700)
        ("malformed batch response: " ++ String.ofList (text.toList.take 500)))

namespace Provider

variable (null : Value) (p : Provider Value)

/-- The responses with the id of a request. -/
def responsesTo (responses : List (JsonRpcResponse Value)) (index : ℕ) :
    List (JsonRpcResponse Value) :=
  responses.filter fun response => response.id = some (index + 1)

/-- The last of them. -/
def responseTo (responses : List (JsonRpcResponse Value)) (index : ℕ) :
    Option (JsonRpcResponse Value) :=
  (responsesTo responses index).getLast?

/-- The result of a request, given the responses. -/
def entry (responses : List (JsonRpcResponse Value)) (index : ℕ) (method : String) :
    Except CoreError Value :=
  match responseTo responses index with
  | some response => p.outcome null method response
  | none => p.noResponse method

/-- The results of a batch, given the responses. -/
def entries (batch : List (String × Value)) (responses : List (JsonRpcResponse Value)) :
    List (Except CoreError Value) :=
  batch.zipIdx.map fun (request, index) => p.entry null responses index request.1

variable {null p} {batch : List (String × Value)} {responses : List (JsonRpcResponse Value)}

/-- The writes to the slot of a request are the outcomes of the responses with its id. -/
theorem filter_slotOf {index : ℕ} {method : String} {params : Value}
    (placed : batch[index]? = some (method, params)) :
    (responses.filterMap (p.slotOf null batch)).filter (fun write => write.1 = index) =
      (responsesTo responses index).map fun response =>
        (index, p.outcome null method response) := by
  unfold responsesTo
  induction responses with
  | nil => rfl
  | cons response rest inductionHypothesis =>
      by_cases own : response.id = some (index + 1)
      · rw [List.filterMap_cons_some (slotOf_eq own placed),
          List.filter_cons_of_pos (by simp), inductionHypothesis,
          List.filter_cons_of_pos (by simpa using own), List.map_cons]
      · rw [List.filter_cons_of_neg (by simpa using own), ← inductionHypothesis]
        cases slot : p.slotOf null batch response with
        | none => rw [List.filterMap_cons_none slot]
        | some write =>
            rw [List.filterMap_cons_some slot, List.filter_cons_of_neg]
            -- a slot belongs to the id of its response
            unfold slotOf at slot
            split at slot
            · next position sameId =>
                obtain ⟨_, _, rfl⟩ := Option.map_eq_some_iff.mp slot
                intro same
                refine own (sameId.trans ?_)
                rw [← of_decide_eq_true same]
            · cases slot

theorem writeAll_slotOf (null : Value) (p : Provider Value) (batch : List (String × Value))
    (responses : List (JsonRpcResponse Value)) :
    writeAll (responses.filterMap (p.slotOf null batch))
      (batch.map fun (method, _) => p.noResponse method) = p.entries null batch responses := by
  refine List.ext_getElem? fun index => ?_
  rw [entries, List.getElem?_map, List.getElem?_zipIdx]
  cases placed : batch[index]? with
  | none =>
      refine List.getElem?_eq_none_iff.mpr ?_
      rw [length_writeAll, List.length_map]
      exact List.getElem?_eq_none_iff.mp placed
  | some request =>
      obtain ⟨method, params⟩ := request
      rw [getElem?_writeAll_eq_last _ _ (by
          rw [List.length_map]
          exact (List.getElem?_eq_some_iff.mp placed).1),
        filter_slotOf placed, List.getElem?_map, placed, List.getLast?_map, Option.map_map]
      simp only [Option.map_some, zero_add, entry, responseTo]
      cases (responsesTo responses index).getLast? <;> rfl

/-- With distinct ids the order of the responses does not matter. -/
theorem responseTo_perm {permuted : List (JsonRpcResponse Value)} (perm : permuted.Perm responses)
    (distinct : (responses.filterMap JsonRpcResponse.id).Nodup) (index : ℕ) :
    responseTo permuted index = responseTo responses index := by
  have own : ∀ response ∈ responsesTo responses index, response.id = some (index + 1) :=
    fun response member => by simpa using (List.mem_filter.mp member).2
  have apart : (responsesTo responses index).Pairwise
      fun a b => ∀ id ∈ a.id, ∀ other ∈ b.id, id ≠ other :=
    (List.pairwise_filterMap.mp distinct).filter _
  have permuted : (responsesTo permuted index).Perm (responsesTo responses index) := perm.filter _
  unfold responseTo
  generalize responsesTo responses index = replies at own apart permuted
  match replies with
  | [] => rw [permuted.eq_nil]
  | [_] => rw [List.perm_singleton.mp permuted]
  | first :: second :: rest =>
      refine absurd rfl (List.rel_of_pairwise_cons apart (List.mem_cons_self ..) (index + 1) ?_
        (index + 1) ?_)
      · exact own first (List.mem_cons_self ..)
      · exact own second (List.mem_cons_of_mem _ (List.mem_cons_self ..))

theorem entries_perm {permuted : List (JsonRpcResponse Value)} (perm : permuted.Perm responses)
    (distinct : (responses.filterMap JsonRpcResponse.id).Nodup) :
    p.entries null batch permuted = p.entries null batch responses := by
  unfold entries entry
  simp only [responseTo_perm perm distinct]

/-- A response array that parses is demultiplexed. -/
theorem callBatch_eq_entries (nonempty : batch ≠ []) (posted : p.postBatch (batchRequests batch) =
    .ok responses) : p.callBatch null batch = .ok (p.entries null batch responses) := by
  rw [callBatch, if_neg (by simpa using nonempty), posted]
  exact congrArg Except.ok (writeAll_slotOf null p batch responses)

end Provider

/-- What the result of a batch is, given the responses. -/
structure Demultiplexed (null : Value) (p : Provider Value) (batch : List (String × Value))
    (responses : List (JsonRpcResponse Value)) (results : List (Except CoreError Value)) : Prop where
  length : results.length = batch.length
  /-- The last response with the id of a request decides, and an error body over a result. -/
  answered : ∀ (index : ℕ) (method : String) (params : Value),
    batch[index]? = some (method, params) → ∀ earlier response later,
      responses = earlier ++ response :: later → response.id = some (index + 1) →
      (∀ other ∈ later, other.id ≠ some (index + 1)) →
      results[index]? = some (match response.error with
        | some err => .error (.jsonRpc p.name method err.code err.message)
        | none => .ok (response.result.getD null))
  missing : ∀ (index : ℕ) (method : String) (params : Value),
    batch[index]? = some (method, params) →
      (∀ response ∈ responses, response.id ≠ some (index + 1)) →
      results[index]? = some (.error
        (.jsonRpc p.name method (-32603) "no response for batch entry"))

theorem Provider.demultiplexed_entries (null : Value) (p : Provider Value)
    (batch : List (String × Value)) (responses : List (JsonRpcResponse Value)) :
    Demultiplexed null p batch responses (p.entries null batch responses) := by
  have entry_at : ∀ {index : ℕ} {method : String} {params : Value},
      batch[index]? = some (method, params) → (p.entries null batch responses)[index]? =
        some (p.entry null responses index method) := by
    intro index method params placed
    rw [Provider.entries, List.getElem?_map, List.getElem?_zipIdx, placed]
    simp
  refine ⟨by simp [Provider.entries], ?_, ?_⟩
  · rintro index method params placed earlier response later rfl own others
    have nothing : later.filter (fun response => response.id = some (index + 1)) = [] :=
      List.filter_eq_nil_iff.mpr fun other member => by simpa using others other member
    have decides : Provider.responseTo (earlier ++ response :: later) index = some response := by
      rw [Provider.responseTo, Provider.responsesTo, List.filter_append, List.filter_cons_of_pos (by simpa using own),
        nothing, List.getLast?_concat]
    rw [entry_at placed, Provider.entry, decides]
    rfl
  · intro index method params placed none
    have nothing : Provider.responseTo responses index = Option.none := by
      rw [Provider.responseTo, Provider.responsesTo, List.filter_eq_nil_iff.mpr fun other member => by
        simpa using none other member]
      rfl
    rw [entry_at placed, Provider.entry, nothing]
    rfl

/-- **Every response text that parses is demultiplexed**, and responses with distinct ids in any
order. -/
theorem callBatch_demultiplexes (null : Value) (format : ResponseFormat Value) (http : Http Value)
    (name : String) (batch : List (String × Value)) (text : String)
    (responses : List (JsonRpcResponse Value)) (nonempty : batch ≠ [])
    (posted : http.postBatch (Provider.batchRequests batch) = .ok text)
    (parsed : format.batch text = some responses) :
    ∃ results, (http.provider format name).callBatch null batch = .ok results ∧
      Demultiplexed null (http.provider format name) batch responses results ∧
      ((responses.filterMap JsonRpcResponse.id).Nodup →
        ∀ (other : Http Value) (permuted : String) (reordered : List (JsonRpcResponse Value)),
          other.postBatch (Provider.batchRequests batch) = .ok permuted →
          format.batch permuted = some reordered → reordered.Perm responses →
          (other.provider format name).callBatch null batch = .ok results) := by
  have received : ∀ {http : Http Value} {text : String} {responses : List (JsonRpcResponse Value)},
      http.postBatch (Provider.batchRequests batch) = .ok text → format.batch text = some responses →
      (http.provider format name).postBatch (Provider.batchRequests batch) = .ok responses := by
    intro http text responses posted parsed
    simp only [Http.provider, posted, Except.bind, parsed]
  refine ⟨_, Provider.callBatch_eq_entries nonempty (received posted parsed),
    Provider.demultiplexed_entries .., ?_⟩
  intro distinct other permuted reordered posted' parsed' perm
  rw [Provider.callBatch_eq_entries nonempty (received posted' parsed')]
  exact congrArg Except.ok (Provider.entries_perm perm distinct)

/-! ## A batch with responses out of order -/

/-- Responses for ids 3 and 0, twice for 2, and none for 1. -/
def strayResponses : List (JsonRpcResponse ℕ) :=
  [⟨some 3, some 30, some ⟨-32000, "execution reverted"⟩⟩, ⟨some 2, some 20, none⟩,
    ⟨some 0, some 7, none⟩, ⟨none, some 8, none⟩, ⟨some 2, none, none⟩]

def strayFormat : ResponseFormat ℕ where
  array text := if text = "[...]" then some strayResponses else none
  single _ := none

def strayHttp : Http ℕ where
  post _ := .ok ""
  postBatch _ := .ok "[...]"

/-- The three requests of a batch with such responses. -/
theorem strayResponses_demultiplexed : ∃ results,
    (strayHttp.provider strayFormat "archive").callBatch 0
        [("eth_call", 1), ("eth_call", 2), ("eth_call", 3)] = .ok results ∧
      Demultiplexed 0 (strayHttp.provider strayFormat "archive")
        [("eth_call", 1), ("eth_call", 2), ("eth_call", 3)] strayResponses results := by
  obtain ⟨results, called, demultiplexed, _⟩ := callBatch_demultiplexes 0 strayFormat strayHttp
    "archive" [("eth_call", 1), ("eth_call", 2), ("eth_call", 3)] "[...]" strayResponses
    (List.cons_ne_nil _ _) rfl (by decide)
  exact ⟨results, called, demultiplexed⟩

example : (strayHttp.provider strayFormat "archive").entries 0
      [("eth_call", 1), ("eth_call", 2), ("eth_call", 3)] strayResponses =
    [.error (.jsonRpc "archive" "eth_call" (-32603) "no response for batch entry"), .ok 0,
      .error (.jsonRpc "archive" "eth_call" (-32000) "execution reverted")] := by
  decide

end ProtocolExplorer.Rpc
