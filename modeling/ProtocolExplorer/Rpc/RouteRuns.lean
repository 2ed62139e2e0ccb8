import ProtocolExplorer.Rpc.BatchReplies
import ProtocolExplorer.Rpc.Routes

/-!
# Runs of cached calls

Any number of callers use the routes at the same time, the providers change what they answer,
and callers are stopped wherever they stand.

`RouteRules` is what the routes rely on: what a hit, a miss, an answer, a stored row and a reply
mean under a protocol.  `RouteRules.respects` proves once, route by route, that every caller
keeps a protocol with such rules; the results about runs choose the meaning.
-/

set_option autoImplicit false

namespace ProtocolExplorer.Rpc

open ProtocolExplorer.Lib

/-- What a caller asks for. -/
inductive RpcTask (Value : Type) where
  | single (provider : String) (call : CachedCall Value)
  | crossCheck (a b : String) (call : CachedCall Value)
  | batch (provider : String) (requests : List (CachedCall Value))
  | multicall (provider : String) (calls : List (CachedCall Value))
  | blockHash (a b : String) (block : ℕ)

/-- The calls a task may cache. -/
def RpcTask.calls {Value : Type} : RpcTask Value → List (CachedCall Value)
  | single _ call => [call]
  | crossCheck _ _ call => [call]
  | batch _ requests => requests
  | multicall _ calls => calls
  | blockHash .. => []

inductive RpcEvent (Value : Type) where
  | setCacheOnlyMode (enabled : Bool)
  /-- The providers answer differently from now on. -/
  | serve (providers : String → Provider Value)

variable {Value Hash : Type}

namespace Routes

variable [DecidableEq Hash] (codec : Codec Value Hash) (format : HeaderFormat Value)

/-- Hand the outcome of a call to the caller; errors are logged elsewhere. -/
def tell {Err : Type} (call : CachedCall Value) :
    Except Err (CrossCheckOutcome Hash) → Route Value Hash PUnit
  | .ok outcome => reply call outcome.responseBytes
  | .error _ => pure ⟨⟩

/-- A caller of a route. -/
def program : RpcTask Value → Route Value Hash PUnit
  | .single provider call => do tell call (← singleCallCached codec provider call)
  | .crossCheck a b call => do tell call (← crossCheckCall codec a b call)
  | .batch provider requests => do
      match ← batchCallCached codec provider requests with
      | .ok (some outcomes) => (requests.zip outcomes).forM fun entry => tell entry.1 entry.2
      | _ => pure ⟨⟩
  | .multicall provider calls => do
      match ← multicallBatchCallCached codec provider calls with
      | .ok (some blobs) => (calls.zip blobs).forM fun entry => reply entry.1 entry.2
      | _ => pure ⟨⟩
  | .blockHash a b block => do
      let _ ← crossCheckBlockHash codec format a b block
      pure ⟨⟩

/-- The callers and their environment. -/
def workload : Workload (RpcWorld Value Hash) (RpcEvent Value) (RpcTask Value) (RpcOp Value Hash)
    RpcOp.Answer where
  occur w
    | .setCacheOnlyMode enabled => some { w with cacheOnly := enabled }
    | .serve providers => some { w with providers }
  act := RpcWorld.act codec.null
  program := program codec format

/-- The row names two different hashes, and a hash of a response is that of its bytes. -/
structure Genuine (row : DivergenceRow Value Hash) : Prop where
  differ : row.responseAHash ≠ row.responseBHash
  hashA : ∀ hash, row.responseAHash = .response hash → hash = codec.sha256 row.responseABytes
  hashB : ∀ hash, row.responseBHash = .response hash → hash = codec.sha256 row.responseBBytes

/-! ## What the routes rely on -/

/-- The meaning of hits, misses and answers under a protocol. -/
structure RouteRules (known : Set (CachedCall Value)) (P : Protocol (RpcWorld Value Hash)) where
  told : CachedCall Value → List UInt8 → RpcWorld Value Hash → Prop
  missed : CachedCall Value → Prop
  given : String → Value → Value → Prop
  stable : ∀ {call bytes w w'}, P.evolves w w' → told call bytes w → told call bytes w'
  hit : ∀ {w call row}, P.inv w → call ∈ known →
    w.rpcCallCache.lookup (codec.computeCallHash call) = some row → told call row.responseBytes w
  miss : ∀ {w call}, P.inv w → call ∈ known →
    w.rpcCallCache.lookup (codec.computeCallHash call) = none → missed call
  answered : ∀ {w name method params value}, P.inv w →
    (w.provider name).call codec.null method params = .ok value → given method params value
  answeredInBatch : ∀ {w name batch results} {index : ℕ} {method params value}, P.inv w →
    (w.provider name).callBatch codec.null batch = .ok results →
    batch[index]? = some (method, params) → results[index]? = some (.ok value) →
      given method params value
  stored : ∀ {w w' call value name second answer}, P.inv w → call ∈ known → missed call →
    given call.method call.params value →
    w.act codec.null (.store (codec.computeCallHash call) (rowOf codec name second call value)) =
      some (w', answer) →
    P.inv w' ∧ P.evolves w w' ∧ told call (codec.toVec value) w'
  diverged : ∀ {w w' method params valueA valueB row answer}, P.inv w →
    given method params valueA → given method params valueB → valueA ≠ valueB →
    Genuine codec row →
    w.act codec.null (.recordDivergence row) = some (w', answer) → P.inv w' ∧ P.evolves w w'
  replied : ∀ {w w' call bytes answer}, P.inv w → call ∈ known → told call bytes w →
    w.act codec.null (.reply call bytes) = some (w', answer) → P.inv w' ∧ P.evolves w w'

namespace RouteRules

variable {codec format} {known : Set (CachedCall Value)} {P : Protocol (RpcWorld Value Hash)}
  (rules : RouteRules codec known P)
  {D : Discipline (RpcWorld Value Hash) (RpcEvent Value) (RpcTask Value) (RpcOp Value Hash)}
  {w : RpcWorld Value Hash} {call : CachedCall Value}

/-- What a lookup has found means what it says. -/
def Found (entry : CachedCall Value × Option (StoredRow Value Hash)) (w : RpcWorld Value Hash) :
    Prop :=
  entry.1 ∈ known ∧ match entry.2 with
    | some row => rules.told entry.1 row.responseBytes w
    | none => rules.missed entry.1

variable {rules}

theorem Found.stable {entry : CachedCall Value × Option (StoredRow Value Hash)}
    {w' : RpcWorld Value Hash} (evolved : P.evolves w w') (found : rules.Found entry w) :
    rules.Found entry w' := by
  obtain ⟨call, _ | row⟩ := entry
  · exact found
  · exact ⟨found.1, rules.stable evolved found.2⟩

/-- A statement that leaves the world as it is. -/
theorem ensures_ask {op : RpcOp Value Hash} {post : op.Answer → RpcWorld Value Hash → Prop}
    (same : ∀ (w w' : RpcWorld Value Hash) answer,
      w.act codec.null op = some (w', answer) → w' = w)
    (learns : ∀ (w' : RpcWorld Value Hash) answer, P.inv w' → w'.act codec.null op = some (w', answer) → post answer w') :
    Ensures (workload codec format) D P post (ask op) w := by
  refine ensures_statement fun w' _ holds _ w'' answer acted => ?_
  obtain rfl := same w' w'' answer acted
  exact ⟨holds, P.refl _, learns w'' answer holds acted⟩

theorem ensures_get (rules : RouteRules codec known P) (asked : call ∈ known) :
    Ensures (workload codec format) D P (fun found w => rules.Found (call, found) w)
      (get (codec.computeCallHash call)) w := by
  refine ensures_ask (fun w w' answer acted => ?_) fun w' answer holds acted => ?_
  · cases acted
    rfl
  · have found : w'.rpcCallCache.lookup (codec.computeCallHash call) = answer := by
      cases acted
      rfl
    refine ⟨asked, ?_⟩
    cases answer with
    | none => exact rules.miss holds asked found
    | some row => exact rules.hit holds asked found

theorem ensures_cacheOnlyMode :
    Ensures (workload codec format) D P (fun _ _ => True) (cacheOnlyMode : Route Value Hash Bool) w :=
  ensures_ask (fun w w' answer acted => by cases acted; rfl) fun _ _ _ _ => trivial

theorem ensures_callProvider (rules : RouteRules codec known P) {provider method : String}
    {params : Value} :
    Ensures (workload codec format) D P
      (fun answer _ => ∀ value, answer = .ok value → rules.given method params value)
      (callProvider provider method params : Route Value Hash _) w := by
  refine ensures_ask (fun w w' answer acted => by cases acted; rfl) ?_
  intro w' answer holds acted value ok
  cases acted
  exact rules.answered holds ok

theorem ensures_callBatch (rules : RouteRules codec known P) {provider : String}
    {batch : List (String × Value)} :
    Ensures (workload codec format) D P
      (fun answer _ => ∀ results, answer = .ok results →
        ∀ (index : ℕ) method params value, batch[index]? = some (method, params) →
          results[index]? = some (.ok value) → rules.given method params value)
      (callBatch provider batch : Route Value Hash _) w := by
  refine ensures_ask (fun w w' answer acted => by cases acted; rfl) ?_
  intro w' answer holds acted results ok index method params value asked found
  cases acted
  exact rules.answeredInBatch holds ok asked found

theorem ensures_store {provider : String} {second : Option String} {value : Value}
    (asked : call ∈ known) (missed : rules.missed call)
    (given : rules.given call.method call.params value) :
    Ensures (workload codec format) D P (fun _ w => rules.told call (codec.toVec value) w)
      (store (codec.computeCallHash call) (rowOf codec provider second call value)) w :=
  ensures_statement fun _ _ holds _ _ _ acted => rules.stored holds asked missed given acted

theorem ensures_recordDivergence {row : DivergenceRow Value Hash} {method : String}
    {params valueA valueB : Value} (givenA : rules.given method params valueA)
    (givenB : rules.given method params valueB) (differ : valueA ≠ valueB)
    (genuine : Genuine codec row) :
    Ensures (workload codec format) D P (fun _ _ => True) (recordDivergence row) w :=
  ensures_statement fun _ _ holds _ _ _ acted =>
    have kept := rules.diverged holds givenA givenB differ genuine acted
    ⟨kept.1, kept.2, trivial⟩

theorem ensures_reply {bytes : List UInt8} (asked : call ∈ known)
    (told : rules.told call bytes w) :
    Ensures (workload codec format) D P (fun _ _ => True) (reply call bytes) w :=
  ensures_statement fun _ moved holds _ _ _ acted =>
    have kept := rules.replied holds asked (rules.stable moved told) acted
    ⟨kept.1, kept.2, trivial⟩

/-! ## Single calls -/

/-- An outcome tells the truth about its call. -/
def Tells {Err : Type} (rules : RouteRules codec known P) (call : CachedCall Value)
    (result : Except Err (CrossCheckOutcome Hash)) (w : RpcWorld Value Hash) : Prop :=
  ∀ outcome, result = .ok outcome → rules.told call outcome.responseBytes w

theorem Tells.stable {Err : Type} {result : Except Err (CrossCheckOutcome Hash)}
    {w' : RpcWorld Value Hash} (evolved : P.evolves w w') (tells : Tells rules call result w) :
    Tells rules call result w' :=
  fun outcome ok => rules.stable evolved (tells outcome ok)

theorem tells_error {Err : Type} (err : Err) :
    Tells rules call (.error err : Except Err (CrossCheckOutcome Hash)) w :=
  fun _ impossible => by cases impossible

theorem tells_ok {Err : Type} {outcome : CrossCheckOutcome Hash}
    (told : rules.told call outcome.responseBytes w) :
    Tells rules call (.ok outcome : Except Err (CrossCheckOutcome Hash)) w :=
  fun _ same => by cases same; exact told

theorem ensures_singleCallCached (rules : RouteRules codec known P) {provider : String}
    (holds : P.inv w) (asked : call ∈ known) :
    Ensures (workload codec format) D P (Tells rules call)
      (singleCallCached codec provider call) w := by
  refine ensures_bind ((ensures_get rules asked).mono holds ?_)
  intro found w₁ holds₁ _ known₁
  cases found with
  | some row => exact tells_ok known₁.2
  | none =>
      refine ensures_bind ((ensures_cacheOnlyMode).mono holds₁ ?_)
      intro enabled w₂ holds₂ _ _
      cases enabled with
      | true => exact tells_error _
      | false =>
          refine ensures_bind ((ensures_callProvider rules).mono holds₂ ?_)
          intro answer w₃ holds₃ _ given
          cases answer with
          | error err => exact tells_error err
          | ok value =>
              refine ensures_bind ((ensures_store asked known₁.2 (given value rfl)).mono holds₃ ?_)
              intro _ w₄ _ _ told
              exact tells_ok told

omit [DecidableEq Hash] in
theorem genuine_divergenceOf {a b : String} {valueA valueB : Value}
    (differ : codec.sha256 (codec.toVec valueA) ≠ codec.sha256 (codec.toVec valueB)) :
    Genuine codec (divergenceOf codec a b call valueA valueB) where
  differ same := differ (Compared.response.inj same)
  hashA _ same := (Compared.response.inj same).symm
  hashB _ same := (Compared.response.inj same).symm

omit [DecidableEq Hash] in
theorem genuine_blockDivergenceOf {a b : String} {block : ℕ} {headerA headerB : Value}
    (differ : format.hash headerA ≠ format.hash headerB) :
    Genuine codec (blockDivergenceOf codec format a b block headerA headerB) where
  differ same := differ (Compared.block.inj same)
  hashA _ impossible := by cases impossible
  hashB _ impossible := by cases impossible

theorem ensures_crossCheckCall (rules : RouteRules codec known P) {a b : String} (holds : P.inv w) (asked : call ∈ known) :
    Ensures (workload codec format) D P (Tells rules call) (crossCheckCall codec a b call) w := by
  refine ensures_bind ((ensures_get rules asked).mono holds ?_)
  intro found w₁ holds₁ _ known₁
  cases found with
  | some row => exact tells_ok known₁.2
  | none =>
      refine ensures_bind ((ensures_cacheOnlyMode).mono holds₁ ?_)
      intro enabled w₂ holds₂ _ _
      cases enabled with
      | true => exact tells_error _
      | false =>
          refine ensures_bind ((ensures_callProvider rules).mono holds₂ ?_)
          intro answerA w₃ holds₃ _ givenA
          cases answerA with
          | error err => exact tells_error _
          | ok valueA =>
              refine ensures_bind ((ensures_callProvider rules).mono holds₃ ?_)
              intro answerB w₄ holds₄ _ givenB
              cases answerB with
              | error err => exact tells_error _
              | ok valueB =>
                  dsimp only
                  split
                  · next differ =>
                      have different : valueA ≠ valueB := fun same => differ (same ▸ rfl)
                      refine ensures_bind ((ensures_recordDivergence (givenA valueA rfl)
                        (givenB valueB rfl) different (genuine_divergenceOf differ)).mono
                          holds₄ ?_)
                      intro _ w₅ _ _ _
                      exact tells_error _
                  · refine ensures_bind
                      ((ensures_store asked known₁.2 (givenA valueA rfl)).mono holds₄ ?_)
                    intro _ w₅ _ _ told
                    exact tells_ok told

theorem ensures_crossCheckBlockHash {a b : String} {block : ℕ} (rules : RouteRules codec known P)
    (holds : P.inv w) :
    Ensures (workload codec format) D P (fun _ _ => True)
      (crossCheckBlockHash codec format a b block) w := by
  refine ensures_bind ((ensures_callProvider rules).mono holds ?_)
  intro answerA w₁ holds₁ _ givenA
  cases answerA with
  | error err => trivial
  | ok headerA =>
      refine ensures_bind ((ensures_callProvider rules).mono holds₁ ?_)
      intro answerB w₂ holds₂ _ givenB
      cases answerB with
      | error err => trivial
      | ok headerB =>
          dsimp only
          split
          · trivial
          · split
            · next differ =>
                have different : headerA ≠ headerB := fun same => differ (same ▸ rfl)
                exact ensures_bind ((ensures_recordDivergence (givenA headerA rfl)
                  (givenB headerB rfl) different (genuine_blockDivergenceOf differ)).mono holds₂
                    fun _ _ _ _ _ => trivial)
            · trivial

/-! ## Batches -/

theorem ensures_probe (rules : RouteRules codec known P) {requests : List (CachedCall Value)}
    (asked : ∀ call ∈ requests, call ∈ known) (holds : P.inv w) :
    Ensures (workload codec format) D P
      (fun probed w => probed.map Prod.fst = requests ∧ ∀ entry ∈ probed, rules.Found entry w)
      (probe codec requests) w := by
  induction requests generalizing w with
  | nil => exact ⟨rfl, fun _ nothing => absurd nothing List.not_mem_nil⟩
  | cons call rest inductionHypothesis =>
      refine ensures_bind ((ensures_get rules (asked call (List.mem_cons_self ..))).mono holds ?_)
      intro found w₁ holds₁ _ known₁
      refine ensures_bind ((inductionHypothesis
        (fun other member => asked other (List.mem_cons_of_mem call member)) holds₁).mono holds₁ ?_)
      rintro probed w₂ _ moved ⟨calls, others⟩
      refine ⟨congrArg (call :: ·) calls, fun entry member => ?_⟩
      rcases List.mem_cons.mp member with rfl | later
      · exact known₁.stable moved
      · exact others entry later

/-- The answers to the misses of a batch. -/
def Answers (rules : RouteRules codec known P) (missed : List (CachedCall Value))
    (results : List (Except CoreError Value)) : Prop :=
  ∀ entry ∈ missed.zip results, ∀ value, entry.2 = .ok value →
    rules.given entry.1.method entry.1.params value

theorem misses_hit {row : StoredRow Value Hash}
    {rest : List (CachedCall Value × Option (StoredRow Value Hash))} :
    misses ((call, some row) :: rest) = misses rest := rfl

theorem misses_miss {rest : List (CachedCall Value × Option (StoredRow Value Hash))} :
    misses ((call, none) :: rest) = call :: misses rest := rfl

theorem ensures_fillMisses {provider : String}
    {probed : List (CachedCall Value × Option (StoredRow Value Hash))}
    {results : List (Except CoreError Value)} (holds : P.inv w)
    (found : ∀ entry ∈ probed, rules.Found entry w) (answers : Answers rules (misses probed) results) :
    Ensures (workload codec format) D P
      (fun filled w => ∀ outcomes, filled = some outcomes →
        ∀ entry ∈ (probed.map Prod.fst).zip outcomes, Tells rules entry.1 entry.2 w)
      (fillMisses codec provider probed results) w := by
  induction probed generalizing w results with
  | nil =>
      intro outcomes _ entry member
      rw [List.map_nil, List.zip_nil_left] at member
      cases member
  | cons head rest inductionHypothesis =>
      obtain ⟨call, looked⟩ := head
      have foundHere := found _ (List.mem_cons_self ..)
      have foundLater : ∀ entry ∈ rest, rules.Found entry w := fun entry later =>
        found entry (List.mem_cons_of_mem _ later)
      -- an outcome in front of the others
      have joined : ∀ {outcome : Except CoreError (CrossCheckOutcome Hash)}
          {others : Option (List (Except CoreError (CrossCheckOutcome Hash)))}
          {w' : RpcWorld Value Hash}, Tells rules call outcome w' →
          (∀ outcomes, others = some outcomes →
            ∀ entry ∈ (rest.map Prod.fst).zip outcomes, Tells rules entry.1 entry.2 w') →
          ∀ outcomes, others.map (outcome :: ·) = some outcomes →
            ∀ entry ∈ (((call, looked) :: rest).map Prod.fst).zip outcomes,
              Tells rules entry.1 entry.2 w' := by
        intro outcome others w' first later outcomes same entry member
        obtain ⟨tail, rfl, rfl⟩ := Option.map_eq_some_iff.mp same
        rw [List.map_cons, List.zip_cons_cons] at member
        rcases List.mem_cons.mp member with rfl | inside
        · exact first
        · exact later tail rfl entry inside
      cases looked with
      | some row =>
          refine ensures_bind ((inductionHypothesis holds foundLater answers).mono holds ?_)
          intro others w' _ moved later
          exact joined (tells_ok (rules.stable moved foundHere.2)) later
      | none =>
          rw [misses_miss] at answers
          cases results with
          | nil =>
              intro outcomes impossible
              cases impossible
          | cons result results =>
              have answersLater : Answers rules (misses rest) results := fun entry member =>
                answers entry (List.mem_cons_of_mem _ member)
              cases result with
              | error err =>
                  refine ensures_bind
                    ((inductionHypothesis holds foundLater answersLater).mono holds ?_)
                  intro others w' _ moved later
                  exact joined (tells_error err) later
              | ok value =>
                  have given := answers _ (List.mem_cons_self ..) value rfl
                  refine ensures_bind
                    ((ensures_store foundHere.1 foundHere.2 given).mono holds ?_)
                  intro _ w₁ holds₁ moved₁ told
                  refine ensures_bind ((inductionHypothesis holds₁
                    (fun entry later => (foundLater entry later).stable moved₁)
                    answersLater).mono holds₁ ?_)
                  intro others w' _ moved later
                  exact joined (tells_ok (rules.stable moved told)) later

theorem ensures_fillUntilError {provider : String}
    {probed : List (CachedCall Value × Option (StoredRow Value Hash))}
    {results : List (Except CoreError Value)} (holds : P.inv w)
    (found : ∀ entry ∈ probed, rules.Found entry w) (answers : Answers rules (misses probed) results) :
    Ensures (workload codec format) D P
      (fun filled w => ∀ blobs, filled = .ok (some blobs) →
        ∀ entry ∈ (probed.map Prod.fst).zip blobs, rules.told entry.1 entry.2 w)
      (fillUntilError codec provider probed results) w := by
  induction probed generalizing w results with
  | nil =>
      intro blobs _ entry member
      rw [List.map_nil, List.zip_nil_left] at member
      cases member
  | cons head rest inductionHypothesis =>
      obtain ⟨call, looked⟩ := head
      have foundHere := found _ (List.mem_cons_self ..)
      have foundLater : ∀ entry ∈ rest, rules.Found entry w := fun entry later =>
        found entry (List.mem_cons_of_mem _ later)
      have joined : ∀ {bytes : List UInt8} {others : Except CoreError (Option (List (List UInt8)))}
          {w' : RpcWorld Value Hash}, rules.told call bytes w' →
          (∀ blobs, others = .ok (some blobs) →
            ∀ entry ∈ (rest.map Prod.fst).zip blobs, rules.told entry.1 entry.2 w') →
          ∀ blobs, others.map (fun filled => filled.map fun tail => bytes :: tail) =
              .ok (some blobs) →
            ∀ entry ∈ (((call, looked) :: rest).map Prod.fst).zip blobs,
              rules.told entry.1 entry.2 w' := by
        intro bytes others w' first later blobs same entry member
        cases others with
        | error err => cases same
        | ok filled =>
            cases filled with
            | none => cases same
            | some tail =>
                cases same
                rw [List.map_cons, List.zip_cons_cons] at member
                rcases List.mem_cons.mp member with rfl | inside
                · exact first
                · exact later tail rfl entry inside
      cases looked with
      | some row =>
          refine ensures_bind ((inductionHypothesis holds foundLater answers).mono holds ?_)
          intro others w' _ moved later
          exact joined (rules.stable moved foundHere.2) later
      | none =>
          rw [misses_miss] at answers
          cases results with
          | nil =>
              intro blobs impossible
              cases impossible
          | cons result results =>
              cases result with
              | error err =>
                  intro blobs impossible
                  cases impossible
              | ok value =>
                  have given := answers _ (List.mem_cons_self ..) value rfl
                  refine ensures_bind
                    ((ensures_store foundHere.1 foundHere.2 given).mono holds ?_)
                  intro _ w₁ holds₁ moved₁ told
                  refine ensures_bind ((inductionHypothesis holds₁
                    (fun entry later => (foundLater entry later).stable moved₁)
                    fun entry member => answers entry (List.mem_cons_of_mem _ member)).mono
                      holds₁ ?_)
                  intro others w' _ moved later
                  exact joined (rules.stable moved told) later

/-- Results of a batch answer its misses position by position. -/
theorem answers_of_callBatch {missed : List (CachedCall Value)}
    {results : List (Except CoreError Value)}
    (given : ∀ (index : ℕ) method params value,
      (missed.map fun miss => (miss.method, miss.params))[index]? = some (method, params) →
        results[index]? = some (.ok value) → rules.given method params value) :
    Answers rules missed results := by
  rintro ⟨call, result⟩ member value rfl
  obtain ⟨index, placed⟩ := List.mem_iff_getElem?.mp member
  obtain ⟨asked, answered⟩ := List.getElem?_zip_eq_some.mp placed
  exact given index call.method call.params value (by rw [List.getElem?_map, asked]; rfl) answered

theorem ensures_batchCallCached (rules : RouteRules codec known P) {provider : String}
    {requests : List (CachedCall Value)} (holds : P.inv w)
    (asked : ∀ call ∈ requests, call ∈ known) :
    Ensures (workload codec format) D P
      (fun result w => ∀ outcomes, result = .ok (some outcomes) →
        ∀ entry ∈ requests.zip outcomes, Tells rules entry.1 entry.2 w)
      (batchCallCached codec provider requests) w := by
  refine ensures_bind ((ensures_probe rules asked holds).mono holds ?_)
  rintro probed w₁ holds₁ _ ⟨rfl, found⟩
  have filled : ∀ {results : List (Except CoreError Value)} {w' : RpcWorld Value Hash},
      P.inv w' → P.evolves w₁ w' → Answers rules (misses probed) results →
      Ensures (workload codec format) D P
        (fun result w => ∀ outcomes, result = .ok (some outcomes) →
          ∀ entry ∈ (probed.map Prod.fst).zip outcomes, Tells rules entry.1 entry.2 w)
        ((fun filled => (.ok filled : Except CoreError _)) <$>
          fillMisses codec provider probed results) w' := by
    intro results w' holds' moved answers
    refine ensures_bind ((ensures_fillMisses holds'
      (fun entry member => (found entry member).stable moved) answers).mono holds' ?_)
    intro outcomes w'' _ _ tells listed same
    cases same
    exact tells listed rfl
  cases missed : misses probed with
  | nil =>
      refine filled holds₁ (P.refl _) ?_
      rw [missed]
      intro entry nothing
      cases nothing
  | cons firstMiss others =>
      refine ensures_bind ((ensures_cacheOnlyMode).mono holds₁ ?_)
      intro enabled w₂ holds₂ moved₂ _
      cases enabled with
      | true =>
          intro outcomes impossible
          cases impossible
      | false =>
          refine ensures_bind ((ensures_callBatch rules).mono holds₂ ?_)
          intro answer w₃ holds₃ moved₃ given
          cases answer with
          | error err =>
              intro outcomes impossible
              cases impossible
          | ok results =>
              refine filled holds₃ (P.trans moved₂ moved₃) ?_
              rw [missed]
              exact answers_of_callBatch (given results rfl)

theorem ensures_multicallBatchCallCached (rules : RouteRules codec known P) {provider : String}
    {calls : List (CachedCall Value)} (holds : P.inv w) (asked : ∀ call ∈ calls, call ∈ known) :
    Ensures (workload codec format) D P
      (fun result w => ∀ blobs, result = .ok (some blobs) →
        ∀ entry ∈ calls.zip blobs, rules.told entry.1 entry.2 w)
      (multicallBatchCallCached codec provider calls) w := by
  refine ensures_bind ((ensures_probe rules asked holds).mono holds ?_)
  rintro probed w₁ holds₁ _ ⟨rfl, found⟩
  cases missed : misses probed with
  | nil =>
      refine ensures_fillUntilError holds₁ found ?_
      rw [missed]
      intro entry nothing
      cases nothing
  | cons firstMiss others =>
      refine ensures_bind ((ensures_cacheOnlyMode).mono holds₁ ?_)
      intro enabled w₂ holds₂ moved₂ _
      cases enabled with
      | true =>
          intro blobs impossible
          cases impossible
      | false =>
          refine ensures_bind ((ensures_callBatch rules).mono holds₂ ?_)
          intro answer w₃ holds₃ moved₃ given
          cases answer with
          | error err =>
              intro blobs impossible
              cases impossible
          | ok responses =>
              dsimp only
              split
              · intro blobs impossible
                cases impossible
              · refine ensures_fillUntilError holds₃
                  (fun entry member => (found entry member).stable (P.trans moved₂ moved₃)) ?_
                rw [missed]
                exact answers_of_callBatch (given responses rfl)

/-! ## Callers -/

theorem ensures_tell {Err : Type} {result : Except Err (CrossCheckOutcome Hash)}
    (asked : call ∈ known) (tells : Tells rules call result w) :
    Ensures (workload codec format) D P (fun _ _ => True) (tell call result) w := by
  cases result with
  | error err => trivial
  | ok outcome => exact ensures_reply asked (tells outcome rfl)

/-- **Every caller keeps a protocol with rules for its statements.** -/
theorem ensures_program (rules : RouteRules codec known P) (task : RpcTask Value)
    (holds : P.inv w) (asked : ∀ call ∈ task.calls, call ∈ known) :
    Ensures (workload codec format) D P (fun _ _ => True) (program codec format task) w := by
  cases task with
  | single provider call =>
      have known := asked call (List.mem_singleton_self call)
      refine ensures_bind ((ensures_singleCallCached rules holds known).mono holds ?_)
      exact fun _ _ _ _ tells => ensures_tell known tells
  | crossCheck a b call =>
      have known := asked call (List.mem_singleton_self call)
      refine ensures_bind ((ensures_crossCheckCall rules holds known).mono holds ?_)
      exact fun _ _ _ _ tells => ensures_tell known tells
  | batch provider requests =>
      refine ensures_bind ((ensures_batchCallCached rules holds asked).mono holds ?_)
      intro result w₁ holds₁ _ tells
      split
      · next outcomes =>
          refine (ensures_forM _ (fun rest w => ∀ entry ∈ rest, entry.1 ∈ known ∧
            Tells rules entry.1 entry.2 w) ?_ holds₁ ?_).imp fun _ _ _ => trivial
          · intro entry rest w' holds' pending
            have here := pending entry (List.mem_cons_self ..)
            refine (ensures_tell here.1 here.2).mono holds' fun _ w'' _ moved _ other later => ?_
            have kept := pending other (List.mem_cons_of_mem entry later)
            exact ⟨kept.1, kept.2.stable moved⟩
          · exact fun entry member =>
              ⟨asked _ (List.of_mem_zip member).1, tells outcomes rfl entry member⟩
      · trivial
  | multicall provider calls =>
      refine ensures_bind ((ensures_multicallBatchCallCached rules holds asked).mono holds ?_)
      intro result w₁ holds₁ _ told
      split
      · next blobs =>
          refine (ensures_forM _ (fun rest w => ∀ entry ∈ rest, entry.1 ∈ known ∧
            rules.told entry.1 entry.2 w) ?_ holds₁ ?_).imp fun _ _ _ => trivial
          · intro entry rest w' holds' pending
            have here := pending entry (List.mem_cons_self ..)
            refine (ensures_reply here.1 here.2).mono holds' fun _ w'' _ moved _ other later => ?_
            have kept := pending other (List.mem_cons_of_mem entry later)
            exact ⟨kept.1, rules.stable moved kept.2⟩
          · exact fun entry member =>
              ⟨asked _ (List.of_mem_zip member).1, told blobs rfl entry member⟩
      · trivial
  | blockHash a b block =>
      exact ensures_bind ((ensures_crossCheckBlockHash rules holds).imp fun _ _ _ => trivial)

end RouteRules

end Routes

end ProtocolExplorer.Rpc
