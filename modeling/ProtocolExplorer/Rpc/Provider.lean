import ProtocolExplorer.Lib.IndexedWrites

/-!
# The JSON-RPC client

`call` posts one request; `call_batch` posts an array of requests with the ids `1, 2, …` and
maps the responses, which may come in any order, back to their positions by id.

JSON values are a type with a `null`; transport and parsing belong to the provider.  A
provider that `Serves` a fixed answer for each method and parameters makes the two agree:
`callBatch_of_serves` against `call_of_serves`.
-/

set_option autoImplicit false

namespace ProtocolExplorer.Rpc

open ProtocolExplorer.Lib

universe u

structure JsonRpcRequest (Value : Type u) where
  method : String
  params : Value
  id : ℕ
  deriving DecidableEq

structure JsonRpcErrorBody where
  code : ℤ
  message : String
  deriving DecidableEq, Repr

/-- An absent and a `null` result are both `none`. -/
structure JsonRpcResponse (Value : Type u) where
  id : Option ℕ
  result : Option Value
  error : Option JsonRpcErrorBody
  deriving DecidableEq

/-- The errors a call can end with. -/
inductive CoreError where
  | db (source : String)
  | http (provider source : String)
  | jsonRpc (provider method : String) (code : ℤ) (message : String)
  deriving DecidableEq, Repr

/-- A provider: what a post of one request, and of a batch, comes back with. -/
structure Provider (Value : Type u) where
  name : String
  post : JsonRpcRequest Value → Except CoreError (JsonRpcResponse Value)
  postBatch : List (JsonRpcRequest Value) → Except CoreError (List (JsonRpcResponse Value))

variable {Value : Type u}

namespace Provider

variable (null : Value) (p : Provider Value)

/-- What a response says about a request of the given method. -/
def outcome (method : String) (response : JsonRpcResponse Value) : Except CoreError Value :=
  match response.error with
  | some err => .error (.jsonRpc p.name method err.code err.message)
  | none => .ok (response.result.getD null)

/-- `call`. -/
def call (method : String) (params : Value) : Except CoreError Value :=
  (p.post ⟨method, params, 1⟩).bind (p.outcome null method)

/-- The default of a slot that no response fills. -/
def noResponse (method : String) : Except CoreError Value :=
  .error (.jsonRpc p.name method (-32603) "no response for batch entry")

/-- The requests of a batch; ids count from 1. -/
def batchRequests (batch : List (String × Value)) : List (JsonRpcRequest Value) :=
  batch.zipIdx.map fun ((method, params), index) => ⟨method, params, index + 1⟩

/-- The slot a response is written to: `none` for an absent id, the id 0 and ids beyond the
batch. -/
def slotOf (batch : List (String × Value)) (response : JsonRpcResponse Value) :
    Option (ℕ × Except CoreError Value) :=
  match response.id with
  | some (index + 1) =>
      batch[index]?.map fun (method, _) => (index, p.outcome null method response)
  | _ => none

/-- `call_batch`. -/
def callBatch (batch : List (String × Value)) :
    Except CoreError (List (Except CoreError Value)) :=
  if batch.isEmpty then .ok []
  else
    (p.postBatch (batchRequests batch)).map fun parsed =>
      writeAll (parsed.filterMap (p.slotOf null batch))
        (batch.map fun (method, _) => p.noResponse method)

/-! ## Providers with fixed answers -/

/-- The response carries the answer. -/
def Carries (response : JsonRpcResponse Value) (answer : Except JsonRpcErrorBody Value) : Prop :=
  match answer with
  | .ok value => response.error = none ∧ response.result.getD null = value
  | .error err => response.error = some err

/-- The provider gives every method and parameters one answer, also in a batch, whose
responses may come in any order. -/
structure Serves (answer : String → Value → Except JsonRpcErrorBody Value) : Prop where
  single : ∀ request, ∃ response, p.post request = .ok response ∧
    Carries null response (answer request.method request.params)
  batch : ∀ requests, ∃ responses, p.postBatch requests = .ok responses ∧
    (∀ response ∈ responses, ∃ request ∈ requests, response.id = some request.id ∧
      Carries null response (answer request.method request.params)) ∧
    ∀ request ∈ requests, ∃ response ∈ responses, response.id = some request.id

/-- The outcome of a call with a given answer. -/
def answered (answer : String → Value → Except JsonRpcErrorBody Value) (method : String)
    (params : Value) : Except CoreError Value :=
  match answer method params with
  | .ok value => .ok value
  | .error err => .error (.jsonRpc p.name method err.code err.message)

section Serves

variable {null p} {answer : String → Value → Except JsonRpcErrorBody Value}

theorem outcome_of_carries {response : JsonRpcResponse Value} {method : String} {params : Value}
    (carries : Carries null response (answer method params)) :
    p.outcome null method response = p.answered answer method params := by
  unfold outcome answered
  cases served : answer method params with
  | ok value =>
      rw [served] at carries
      rw [carries.1, carries.2]
  | error err =>
      rw [served] at carries
      have failed : response.error = some err := carries
      rw [failed]

theorem call_of_serves (serves : p.Serves null answer) (method : String) (params : Value) :
    p.call null method params = p.answered answer method params := by
  obtain ⟨response, posted, carries⟩ := serves.single ⟨method, params, 1⟩
  rw [call, posted]
  exact outcome_of_carries carries

theorem mem_batchRequests {batch : List (String × Value)} {request : JsonRpcRequest Value} :
    request ∈ batchRequests batch ↔
      ∃ index, batch[index]? = some (request.method, request.params) ∧ request.id = index + 1 := by
  obtain ⟨method, params, id⟩ := request
  simp only [batchRequests, List.mem_map, Prod.exists, List.mem_zipIdx_iff_getElem?]
  constructor
  · rintro ⟨method', params', index, placed, same⟩
    cases same
    exact ⟨index, placed, rfl⟩
  · rintro ⟨index, placed, rfl⟩
    exact ⟨method, params, index, placed, rfl⟩

/-- The slot of a response to a request of the batch. -/
theorem slotOf_eq {batch : List (String × Value)} {response : JsonRpcResponse Value} {index : ℕ}
    {method : String} {params : Value} (sameId : response.id = some (index + 1))
    (placed : batch[index]? = some (method, params)) :
    p.slotOf null batch response = some (index, p.outcome null method response) := by
  simp only [slotOf, sameId, placed, Option.map_some]

/-- **A batch is answered position by position as single calls are.** -/
theorem callBatch_of_serves (serves : p.Serves null answer) (batch : List (String × Value)) :
    p.callBatch null batch =
      .ok (batch.map fun (method, params) => p.answered answer method params) := by
  cases batch with
  | nil => rfl
  | cons head rest =>
      obtain ⟨responses, posted, sound, complete⟩ :=
        serves.batch (batchRequests (head :: rest))
      rw [callBatch, posted, List.isEmpty_cons, if_neg Bool.false_ne_true]
      generalize head :: rest = batch at sound complete
      show Except.ok _ = Except.ok _
      refine congrArg Except.ok (writeAll_eq_of_agrees (by simp) ?_ ?_)
      · intro write written value wanted
        obtain ⟨response, arrived, slot⟩ := List.mem_filterMap.mp written
        obtain ⟨request, asked, sameId, carries⟩ := sound response arrived
        obtain ⟨index, placed, isNext⟩ := mem_batchRequests.mp asked
        rw [slotOf_eq (isNext ▸ sameId) placed] at slot
        cases slot
        rw [List.getElem?_map, placed] at wanted
        cases wanted
        exact outcome_of_carries carries
      · intro position value wanted
        rw [List.getElem?_map] at wanted
        obtain ⟨⟨method, params⟩, placed, _⟩ := Option.map_eq_some_iff.mp wanted
        obtain ⟨response, arrived, sameId⟩ := complete ⟨method, params, position + 1⟩
          (mem_batchRequests.mpr ⟨position, placed, rfl⟩)
        refine Or.inr ⟨(position, p.outcome null method response), ?_, rfl⟩
        exact List.mem_filterMap.mpr ⟨response, arrived, slotOf_eq sameId placed⟩

end Serves

/-! ## Such a provider -/

/-- The response to a request. -/
def respond (answer : String → Value → Except JsonRpcErrorBody Value)
    (request : JsonRpcRequest Value) : JsonRpcResponse Value :=
  match answer request.method request.params with
  | .ok value => ⟨some request.id, some value, none⟩
  | .error err => ⟨some request.id, none, some err⟩

/-- A provider that answers a batch from its end. -/
def answering (name : String) (answer : String → Value → Except JsonRpcErrorBody Value) :
    Provider Value where
  name := name
  post request := .ok (respond answer request)
  postBatch requests := .ok (requests.reverse.map (respond answer))

theorem carries_respond (answer : String → Value → Except JsonRpcErrorBody Value)
    (request : JsonRpcRequest Value) :
    (respond answer request).id = some request.id ∧
      Carries null (respond answer request) (answer request.method request.params) := by
  unfold respond
  cases answer request.method request.params with
  | ok value => exact ⟨rfl, rfl, rfl⟩
  | error err => exact ⟨rfl, rfl⟩

theorem serves_answering (name : String)
    (answer : String → Value → Except JsonRpcErrorBody Value) :
    (answering name answer).Serves null answer where
  single request := ⟨_, rfl, (carries_respond null answer request).2⟩
  batch requests := by
    refine ⟨_, rfl, fun response arrived => ?_, fun request asked => ?_⟩
    · obtain ⟨request, asked, rfl⟩ := List.mem_map.mp arrived
      exact ⟨request, List.mem_reverse.mp asked, carries_respond null answer request⟩
    · exact ⟨respond answer request, List.mem_map_of_mem (List.mem_reverse.mpr asked),
        (carries_respond null answer request).1⟩

end Provider

end ProtocolExplorer.Rpc
