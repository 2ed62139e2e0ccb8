import ProtocolExplorer.Rpc.RouteRuns
import ProtocolExplorer.Rpc.RoutesAlone

/-!
# What callers of the routes are told

* `bookkeeping_run` — whatever the providers answer, no row is ever replaced, rows and
  divergences say what they should, and a cross-checked row has been agreed on;
* `cachedAnswers_stay` — a call that is cached when the process starts is answered by its row
  through every route, whatever happens;
* `replies_replay` — with providers that agree, every caller has been told the one answer of its
  call, no divergence was recorded, and replaying any of these calls from the cache alone, in
  batches of any composition, gives the same bytes.
-/

set_option autoImplicit false

namespace ProtocolExplorer.Rpc.Routes

open ProtocolExplorer.Lib

variable {Value Hash : Type} [DecidableEq Hash] (codec : Codec Value Hash)
  (format : HeaderFormat Value)

/-! ## Bookkeeping -/

/-- Rows are stored under the hash of their call with the hash of their bytes, which is also
the hash of the second provider where there was one; divergences are genuine. -/
structure Bookkept (w : RpcWorld Value Hash) : Prop where
  keyed : ∀ hash row, w.rpcCallCache.lookup hash = some row →
    hash = codec.computeCallHash row.call
  hashed : ∀ hash row, w.rpcCallCache.lookup hash = some row →
    row.responseHash = codec.sha256 row.responseBytes
  agreed : ∀ hash row, w.rpcCallCache.lookup hash = some row →
    row.crossCheckResponseHash = row.crossCheckProvider.map fun _ => row.responseHash
  genuine : ∀ row ∈ w.rpcDivergenceFailures, Genuine codec row

/-- Rows and divergences are only added. -/
structure Grows (w w' : RpcWorld Value Hash) : Prop where
  cache : CacheExtends w.rpcCallCache w'.rpcCallCache
  divergences : w.rpcDivergenceFailures <+: w'.rpcDivergenceFailures
  replies : w.replies <+: w'.replies

theorem Grows.refl (w : RpcWorld Value Hash) : Grows w w :=
  ⟨CacheExtends.refl _, List.prefix_rfl, List.prefix_rfl⟩

theorem Grows.trans {a b c : RpcWorld Value Hash} (first : Grows a b) (second : Grows b c) :
    Grows a c :=
  ⟨first.cache.trans second.cache, first.divergences.trans second.divergences,
    first.replies.trans second.replies⟩

/-- An invariant of worlds that only grow. -/
def growing (inv : RpcWorld Value Hash → Prop) : Protocol (RpcWorld Value Hash) where
  inv := inv
  evolves := Grows
  refl := Grows.refl
  trans := Grows.trans

/-- No restriction on the environment or the callers. -/
def anything : Discipline (RpcWorld Value Hash) (RpcEvent Value) (RpcTask Value)
    (RpcOp Value Hash) where
  event _ _ := True
  task _ _ := True
  op _ _ := True

variable {codec format} {w w' : RpcWorld Value Hash}

omit [DecidableEq Hash] in
theorem anything_allows (pool : Pool (RpcWorld Value Hash) (RpcOp Value Hash) RpcOp.Answer)
    (a : PoolAction (RpcEvent Value) (RpcTask Value)) : anything.allows pool a := by
  cases a with
  | proceed index =>
      show anything.allowsNext pool.shared pool.running[index]?
      unfold Discipline.allowsNext
      split <;> trivial
  | event e => trivial
  | spawn task => trivial
  | stop index => trivial

theorem cacheExtends_insertNew {Key Row : Type} [DecidableEq Key] (table : Table Key Row)
    (key : Key) (row : Row) : CacheExtends table (Table.insertNew table key row) := by
  intro other stored found
  rw [Table.insertNew, Table.lookup_upsert]
  split
  · next same => rw [← same, found, Option.getD_some]
  · exact found

/-- A row after an insert was there, or is the inserted one. -/
theorem lookup_insertNew_cases {Key Row : Type} [DecidableEq Key] {table : Table Key Row}
    {key other : Key} {row stored : Row}
    (found : (Table.insertNew table key row).lookup other = some stored) :
    table.lookup other = some stored ∨ other = key ∧ stored = row := by
  rw [Table.insertNew, Table.lookup_upsert] at found
  split at found
  · next same =>
      cases present : table.lookup key with
      | some old =>
          rw [present] at found
          exact Or.inl (same ▸ present.trans found)
      | none =>
          rw [present] at found
          cases found
          exact Or.inr ⟨same, rfl⟩
  · exact Or.inl found

theorem grows_store (w : RpcWorld Value Hash) (hash : Hash) (row : StoredRow Value Hash) :
    Grows w { w with rpcCallCache := Table.insertNew w.rpcCallCache hash row } :=
  ⟨cacheExtends_insertNew _ _ _, List.prefix_rfl, List.prefix_rfl⟩

theorem grows_recordDivergence (w : RpcWorld Value Hash) (row : DivergenceRow Value Hash) :
    Grows w { w with rpcDivergenceFailures := w.rpcDivergenceFailures ++ [row] } :=
  ⟨CacheExtends.refl _, List.prefix_append _ _, List.prefix_rfl⟩

theorem grows_reply (w : RpcWorld Value Hash) (reply : CachedCall Value × List UInt8) :
    Grows w { w with replies := w.replies ++ [reply] } :=
  ⟨CacheExtends.refl _, List.prefix_rfl, List.prefix_append _ _⟩

/-- Events change neither tables nor replies. -/
theorem grows_occur {e : RpcEvent Value} (occurred : (workload codec format).occur w e = some w') :
    Grows w w' := by
  cases e <;> cases occurred <;>
    exact ⟨CacheExtends.refl _, List.prefix_rfl, List.prefix_rfl⟩

theorem Bookkept.store (kept : Bookkept codec w) {name : String} {second : Option String}
    {call : CachedCall Value} {value : Value} :
    Bookkept codec { w with
      rpcCallCache := Table.insertNew w.rpcCallCache (codec.computeCallHash call)
        (rowOf codec name second call value) } where
  keyed hash row found := by
    rcases lookup_insertNew_cases found with old | ⟨rfl, rfl⟩
    · exact kept.keyed hash row old
    · rfl
  hashed hash row found := by
    rcases lookup_insertNew_cases found with old | ⟨rfl, rfl⟩
    · exact kept.hashed hash row old
    · rfl
  agreed hash row found := by
    rcases lookup_insertNew_cases found with old | ⟨rfl, rfl⟩
    · exact kept.agreed hash row old
    · rfl
  genuine := kept.genuine

theorem Bookkept.recordDivergence (kept : Bookkept codec w) {row : DivergenceRow Value Hash}
    (genuine : Genuine codec row) :
    Bookkept codec { w with rpcDivergenceFailures := w.rpcDivergenceFailures ++ [row] } where
  keyed := kept.keyed
  hashed := kept.hashed
  agreed := kept.agreed
  genuine other member := by
    rcases List.mem_append.mp member with old | new
    · exact kept.genuine other old
    · exact List.mem_singleton.mp new ▸ genuine

variable (codec) in
def bookkeepingRules : RouteRules codec Set.univ (growing (Bookkept codec)) where
  told _ _ _ := True
  missed _ := True
  given _ _ _ := True
  stable _ _ := trivial
  hit _ _ _ := trivial
  miss _ _ _ := trivial
  answered _ _ := trivial
  answeredInBatch _ _ _ _ := trivial
  stored holds _ _ _ acted := by
    cases acted
    exact ⟨Bookkept.store holds, grows_store _ _ _, trivial⟩
  diverged holds _ _ _ genuine acted := by
    cases acted
    exact ⟨Bookkept.recordDivergence holds genuine, grows_recordDivergence _ _⟩
  replied holds _ _ acted := by
    cases acted
    exact ⟨⟨holds.keyed, holds.hashed, holds.agreed, holds.genuine⟩, grows_reply _ _⟩

theorem bookkeeping_respected :
    Respects (workload codec format) anything (growing (Bookkept codec)) where
  event w e w' holds _ occurred := by
    refine ⟨?_, grows_occur occurred⟩
    cases e <;> cases occurred <;> exact ⟨holds.keyed, holds.hashed, holds.agreed, holds.genuine⟩
  program w task holds _ :=
    RouteRules.ensures_program (bookkeepingRules codec) task holds fun _ _ => Set.mem_univ _

/-- **Whatever the providers answer and however the callers interleave, the first row of a call
stays, rows and divergences are what they should be, and none is lost.** -/
theorem bookkeeping_run {pool : Pool (RpcWorld Value Hash) (RpcOp Value Hash) RpcOp.Answer}
    (kept : Bookkept codec w) (ran : Run (workload codec format).step ⟨w, []⟩ pool) :
    Bookkept codec pool.shared ∧ CacheExtends w.rpcCallCache pool.shared.rpcCallCache ∧
      w.rpcDivergenceFailures <+: pool.shared.rpcDivergenceFailures := by
  have start : Pool.Sound (workload codec format) anything (growing (Bookkept codec)) ⟨w, []⟩ :=
    ⟨kept, fun _ nothing => absurd nothing List.not_mem_nil⟩
  obtain ⟨sound, grown⟩ := bookkeeping_respected.run start
    (ran.mono fun pool a _ => anything_allows pool a)
  exact ⟨sound.inv, grown.cache, grown.divergences⟩

/-- Headers of a chain without hashes. -/
def noHeaders : HeaderFormat ℕ := ⟨id, fun _ => ""⟩

/-- Providers that double, and an empty cache. -/
def doublingWorld : RpcWorld ℕ (List UInt8) := ⟨∅, [], false, fun _ => Codec.archive, []⟩

def balanceCall : CachedCall ℕ := ⟨"eth_call", 2, some 9⟩

/-- A provider that has changed its mind. -/
def tripling (_ : String) (n : ℕ) : Except JsonRpcErrorBody ℕ := .ok (3 * n)

/-- Two callers miss, one of them asks before and one after the providers change. -/
def race : List (PoolAction (RpcEvent ℕ) (RpcTask ℕ)) :=
  [.spawn (.single "archive" balanceCall), .spawn (.single "archive" balanceCall), .proceed 0,
    .proceed 1, .proceed 0, .proceed 1, .proceed 0,
    .event (.serve fun name => Provider.answering name tripling), .proceed 1, .proceed 0,
    .proceed 1, .proceed 1, .proceed 0]

/-- The tables after the race. -/
theorem race_bookkept :
    ∃ pool, execute (workload Codec.numberCodec noHeaders).step ⟨doublingWorld, []⟩ race =
        some pool ∧ Bookkept Codec.numberCodec pool.shared := by
  have start : Bookkept Codec.numberCodec doublingWorld :=
    { keyed := fun _ _ found => by cases found
      hashed := fun _ _ found => by cases found
      agreed := fun _ _ found => by cases found
      genuine := fun _ nothing => by cases nothing }
  have ran : execute (workload Codec.numberCodec noHeaders).step ⟨doublingWorld, []⟩ race = some
      ((execute (workload Codec.numberCodec noHeaders).step ⟨doublingWorld, []⟩ race).get
        (by decide +kernel)) := (Option.some_get _).symm
  exact ⟨_, ran, (bookkeeping_run start (execute_run ran)).1⟩

/-! ## Answers that are cached at the start -/

/-- Rows of the start are there, and whoever asked for one of them has been told its bytes. -/
structure Answering (codec : Codec Value Hash) (start w : RpcWorld Value Hash) : Prop where
  cache : CacheExtends start.rpcCallCache w.rpcCallCache
  replies : ∃ later, w.replies = start.replies ++ later ∧ ∀ reply ∈ later, ∀ row,
    start.rpcCallCache.lookup (codec.computeCallHash reply.1) = some row →
      reply.2 = row.responseBytes

theorem Answering.refl (codec : Codec Value Hash) (w : RpcWorld Value Hash) :
    Answering codec w w :=
  ⟨CacheExtends.refl _, [], (List.append_nil _).symm, fun _ nothing =>
    absurd nothing List.not_mem_nil⟩

variable (codec) in
def answeringRules (start : RpcWorld Value Hash) :
    RouteRules codec Set.univ (growing (Answering codec start)) where
  told call bytes _ := ∀ row,
    start.rpcCallCache.lookup (codec.computeCallHash call) = some row → bytes = row.responseBytes
  missed call := start.rpcCallCache.lookup (codec.computeCallHash call) = none
  given _ _ _ := True
  stable _ told := told
  hit {w call row} holds _ found row' cached := by
    have same := (holds.cache _ _ cached).symm.trans found
    cases same
    rfl
  miss {w call} holds _ absent := by
    cases cached : start.rpcCallCache.lookup (codec.computeCallHash call) with
    | none => rfl
    | some row =>
        rw [holds.cache _ _ cached] at absent
        cases absent
  answered _ _ := trivial
  answeredInBatch _ _ _ _ := trivial
  stored holds _ missed _ acted := by
    cases acted
    refine ⟨⟨holds.cache.trans (cacheExtends_insertNew _ _ _), holds.replies⟩,
      grows_store _ _ _, fun row cached => ?_⟩
    rw [missed] at cached
    cases cached
  diverged holds _ _ _ _ acted := by
    cases acted
    exact ⟨⟨holds.cache, holds.replies⟩, grows_recordDivergence _ _⟩
  replied {w w' call bytes answer} holds _ told acted := by
    cases acted
    obtain ⟨later, replies, truthful⟩ := holds.replies
    refine ⟨⟨holds.cache, later ++ [(call, bytes)], ?_, fun reply member => ?_⟩, grows_reply _ _⟩
    · show w.replies ++ _ = _
      rw [replies, List.append_assoc]
    · rcases List.mem_append.mp member with old | new
      · exact truthful reply old
      · exact List.mem_singleton.mp new ▸ told

theorem answering_respected (start : RpcWorld Value Hash) :
    Respects (workload codec format) anything (growing (Answering codec start)) where
  event w e w' holds _ occurred := by
    refine ⟨?_, grows_occur occurred⟩
    cases e <;> cases occurred <;> exact ⟨holds.cache, holds.replies⟩
  program w task holds _ :=
    RouteRules.ensures_program (answeringRules codec start) task holds fun _ _ => Set.mem_univ _

/-- **A cached answer is the answer for good.**  From a start with no caller under way, every
reply to a call that was cached at the start is the cached one, whichever route it took, whatever
the providers answer by then and whoever else asks, and the row is still there. -/
theorem cachedAnswers_stay {pool : Pool (RpcWorld Value Hash) (RpcOp Value Hash) RpcOp.Answer}
    (ran : Run (workload codec format).step ⟨w, []⟩ pool) :
    w.replies <+: pool.shared.replies ∧
      ∀ reply ∈ pool.shared.replies.drop w.replies.length, ∀ row,
        w.rpcCallCache.lookup (codec.computeCallHash reply.1) = some row →
          reply.2 = row.responseBytes ∧
            pool.shared.rpcCallCache.lookup (codec.computeCallHash reply.1) = some row := by
  have start : Pool.Sound (workload codec format) anything (growing (Answering codec w))
      ⟨w, []⟩ :=
    ⟨Answering.refl codec w, fun _ nothing => absurd nothing List.not_mem_nil⟩
  obtain ⟨sound, grown⟩ := (answering_respected w).run start
    (ran.mono fun pool a _ => anything_allows pool a)
  refine ⟨grown.replies, fun reply member row cached => ?_⟩
  obtain ⟨later, replies, truthful⟩ := sound.inv.replies
  rw [replies, List.drop_left] at member
  exact ⟨truthful reply member row cached, grown.cache _ _ cached⟩

/-- The answer is cached, and the providers have changed since. -/
def triplingWorld : RpcWorld ℕ (List UInt8) :=
  { stored Codec.numberCodec "archive" balanceCall 4 doublingWorld with
    providers := fun name => Provider.answering name tripling }

/-- One caller after the start. -/
def latecomer : List (PoolAction (RpcEvent ℕ) (RpcTask ℕ)) :=
  [.spawn (.batch "archive" [balanceCall]), .proceed 0, .proceed 0]

theorem latecomer_cached :
    ∃ pool, execute (workload Codec.numberCodec noHeaders).step ⟨triplingWorld, []⟩ latecomer =
        some pool ∧ (balanceCall, [4]) ∈ pool.shared.replies ∧
      ∀ row, triplingWorld.rpcCallCache.lookup (Codec.numberCodec.computeCallHash balanceCall) =
        some row → [4] = row.responseBytes := by
  have ran : execute (workload Codec.numberCodec noHeaders).step ⟨triplingWorld, []⟩ latecomer =
      some ((execute (workload Codec.numberCodec noHeaders).step ⟨triplingWorld, []⟩
        latecomer).get (by decide +kernel)) := (Option.some_get _).symm
  refine ⟨_, ran, by decide +kernel, fun row cached => ?_⟩
  exact ((cachedAnswers_stay (execute_run ran)).2 (balanceCall, [4]) (by decide +kernel) row
    cached).1

/-! ## Providers that agree -/

/-- The cache has a row of the call with these bytes. -/
def Backed (codec : Codec Value Hash) (w : RpcWorld Value Hash)
    (reply : CachedCall Value × List UInt8) : Prop :=
  ∃ row, w.rpcCallCache.lookup (codec.computeCallHash reply.1) = some row ∧
    row.responseBytes = reply.2

/-- The bytes are those of the answer to the call. -/
def Answers (codec : Codec Value Hash) (answer : String → Value → Except JsonRpcErrorBody Value)
    (call : CachedCall Value) (bytes : List UInt8) : Prop :=
  ∃ value, answer call.method call.params = .ok value ∧ bytes = codec.toVec value

/-- Every provider serves the same answers, rows hold them, replies are backed by rows, and
no divergence came up since the start. -/
structure Faithful (codec : Codec Value Hash)
    (answer : String → Value → Except JsonRpcErrorBody Value) (known : Set (CachedCall Value))
    (start w : RpcWorld Value Hash) : Prop where
  serves : ∀ name, (w.providers name).Serves codec.null answer
  rows : ∀ call ∈ known, ∀ row,
    w.rpcCallCache.lookup (codec.computeCallHash call) = some row →
      Answers codec answer call row.responseBytes
  divergences : w.rpcDivergenceFailures = start.rpcDivergenceFailures
  replies : ∃ later, w.replies = start.replies ++ later ∧
    ∀ reply ∈ later, reply.1 ∈ known ∧ Backed codec w reply

section Agreement

variable {answer : String → Value → Except JsonRpcErrorBody Value}
  {known : Set (CachedCall Value)} {start : RpcWorld Value Hash}

theorem Backed.grows {reply : CachedCall Value × List UInt8} (grown : Grows w w')
    (backed : Backed codec w reply) : Backed codec w' reply := by
  obtain ⟨row, found, bytes⟩ := backed
  exact ⟨row, grown.cache _ _ found, bytes⟩

omit [DecidableEq Hash] in
theorem ok_of_answered {p : Provider Value} {method : String} {params value : Value}
    (answered : p.answered answer method params = .ok value) :
    answer method params = .ok value := by
  unfold Provider.answered at answered
  split at answered
  · next served =>
      cases answered
      exact served
  · cases answered

theorem Faithful.serves_provider (faithful : Faithful codec answer known start w) (name : String) :
    (w.provider name).Serves codec.null answer :=
  ⟨(faithful.serves name).single, (faithful.serves name).batch⟩

/-- The replies stay backed when the world grows. -/
theorem Faithful.replies_grows (faithful : Faithful codec answer known start w)
    (grown : Grows w w') (same : w'.replies = w.replies) :
    ∃ later, w'.replies = start.replies ++ later ∧
      ∀ reply ∈ later, reply.1 ∈ known ∧ Backed codec w' reply := by
  obtain ⟨later, replies, backed⟩ := faithful.replies
  exact ⟨later, same.trans replies, fun reply member =>
    ⟨(backed reply member).1, (backed reply member).2.grows grown⟩⟩

/-- The callers ask known calls, and the providers go on to serve the same answers. -/
def agreeing (codec : Codec Value Hash) (answer : String → Value → Except JsonRpcErrorBody Value)
    (known : Set (CachedCall Value)) :
    Discipline (RpcWorld Value Hash) (RpcEvent Value) (RpcTask Value) (RpcOp Value Hash) where
  event _
    | .setCacheOnlyMode _ => True
    | .serve providers => ∀ name, (providers name).Serves codec.null answer
  task _ task := ∀ call ∈ task.calls, call ∈ known
  op _ _ := True

def agreementRules (noCollision : Set.InjOn codec.computeCallHash known)
    (start : RpcWorld Value Hash) :
    RouteRules codec known (growing (Faithful codec answer known start)) where
  told call bytes w := Backed codec w (call, bytes)
  missed _ := True
  given method params value := answer method params = .ok value
  stable grown backed := backed.grows grown
  hit _ _ found := ⟨_, found, rfl⟩
  miss _ _ _ := trivial
  answered holds called := by
    rw [Provider.call_of_serves (holds.serves_provider _)] at called
    exact ok_of_answered called
  answeredInBatch holds called asked found := by
    rw [Provider.callBatch_of_serves (holds.serves_provider _)] at called
    cases called
    rw [List.getElem?_map, asked] at found
    exact ok_of_answered (Option.some.inj found)
  stored {w w' call value name second _} holds asked _ given acted := by
    cases acted
    have grown := grows_store w (codec.computeCallHash call) (rowOf codec name second call value)
    have rows : ∀ other ∈ known, ∀ row, (Table.insertNew w.rpcCallCache
        (codec.computeCallHash call) (rowOf codec name second call value)).lookup
          (codec.computeCallHash other) = some row → Answers codec answer other row.responseBytes := by
      intro other member row found
      rcases lookup_insertNew_cases found with old | ⟨sameHash, rfl⟩
      · exact holds.rows other member row old
      · obtain rfl := noCollision member asked sameHash
        exact ⟨value, given, rfl⟩
    refine ⟨⟨holds.serves, rows, holds.divergences, holds.replies_grows grown rfl⟩, grown, ?_⟩
    -- a row that was there holds the same answer
    cases present : w.rpcCallCache.lookup (codec.computeCallHash call) with
    | none =>
        refine ⟨rowOf codec name second call value, ?_, rfl⟩
        rw [Table.lookup_insertNew_of_none present, if_pos rfl]
    | some row =>
        obtain ⟨value', served, bytes⟩ := holds.rows call asked row present
        rw [given] at served
        cases served
        exact ⟨row, grown.cache _ _ present, bytes⟩
  diverged _ givenA givenB differ _ _ := by
    rw [givenA] at givenB
    cases givenB
    exact absurd rfl differ
  replied {w w' call bytes _} holds asked backed acted := by
    cases acted
    obtain ⟨later, replies, all⟩ := holds.replies
    refine ⟨⟨holds.serves, holds.rows, holds.divergences, later ++ [(call, bytes)], ?_,
      fun reply member => ?_⟩, grows_reply _ _⟩
    · show w.replies ++ _ = _
      rw [replies, List.append_assoc]
    · rcases List.mem_append.mp member with old | new
      · exact all reply old
      · rw [List.mem_singleton.mp new]
        exact ⟨asked, backed⟩

theorem agreement_respected (noCollision : Set.InjOn codec.computeCallHash known)
    (start : RpcWorld Value Hash) :
    Respects (workload codec format) (agreeing codec answer known)
      (growing (Faithful codec answer known start)) where
  event w e w' holds allowed occurred := by
    have grown := grows_occur occurred
    cases e with
    | setCacheOnlyMode enabled =>
        cases occurred
        exact ⟨⟨holds.serves, holds.rows, holds.divergences, holds.replies⟩, grown⟩
    | serve providers =>
        cases occurred
        exact ⟨⟨allowed, holds.rows, holds.divergences, holds.replies⟩, grown⟩
  program w task holds asked :=
    RouteRules.ensures_program (agreementRules noCollision start) task holds asked

/-! ## Replay -/

/-- A world whose routes are answered from the cache alone. -/
def replaying (w : RpcWorld Value Hash) : RpcWorld Value Hash := { w with cacheOnly := true }

theorem misses_of_backed {calls : List (CachedCall Value)}
    (cached : ∀ call ∈ calls, (w.rpcCallCache.lookup (codec.computeCallHash call)).isSome) :
    misses (probed codec w calls) = [] := by
  rw [misses, List.map_eq_nil_iff, List.filter_eq_nil_iff]
  intro entry member
  obtain ⟨call, listed, rfl⟩ := List.mem_map.mp member
  rw [Option.isNone_iff_eq_none]
  intro absent
  have present := cached call listed
  rw [show w.rpcCallCache.lookup (codec.computeCallHash call) = none from absent] at present
  cases present

/-- A batch of backed calls is answered without a provider. -/
theorem alone_fillMisses_of_backed (provider : String)
    {replies : List (CachedCall Value × List UInt8)}
    (backed : ∀ reply ∈ replies, Backed codec w reply) :
    ∃ outcomes,
      alone codec (fillMisses codec provider (probed codec w (replies.map Prod.fst)) []) w =
        some (w, some outcomes) ∧
      outcomes.map (Except.map (·.responseBytes)) = replies.map fun reply => .ok reply.2 := by
  induction replies with
  | nil => exact ⟨[], rfl, rfl⟩
  | cons reply rest inductionHypothesis =>
      obtain ⟨outcomes, ran, bytes⟩ := inductionHypothesis fun other later =>
        backed other (List.mem_cons_of_mem reply later)
      obtain ⟨row, found, own⟩ := backed reply (List.mem_cons_self ..)
      have entry : probed codec w ((reply :: rest).map Prod.fst) =
          (reply.1, some row) :: probed codec w (rest.map Prod.fst) := by
        rw [List.map_cons, probed, List.map_cons, found]
        rfl
      refine ⟨.ok (outcome codec reply.1 row) :: outcomes, ?_, ?_⟩
      · rw [entry, fillMisses, alone_bind_of ran]
        rfl
      · rw [List.map_cons, bytes, List.map_cons, ← own]
        rfl

/-- **Providers that agree are told apart by nobody, and their answers can be replayed.**  In
every run, through whichever routes and however these interleave, callers are told the one answer
of their calls and no divergence is recorded.  Afterwards, any of these calls in batches of any
composition is answered from the cache alone, with the bytes of before. -/
theorem replies_replay {pool : Pool (RpcWorld Value Hash) (RpcOp Value Hash) RpcOp.Answer}
    (noCollision : Set.InjOn codec.computeCallHash known)
    (faithful : Faithful codec answer known w w)
    (ran : GuardedRun (workload codec format).step (agreeing codec answer known).allows ⟨w, []⟩
      pool) :
    pool.shared.rpcDivergenceFailures = w.rpcDivergenceFailures ∧
      ∀ replies : List (CachedCall Value × List UInt8),
        (∀ reply ∈ replies, reply ∈ pool.shared.replies.drop w.replies.length) →
        (∀ reply ∈ replies, Answers codec answer reply.1 reply.2) ∧
        ∀ provider, ∃ outcomes,
          alone codec (batchCallCached codec provider (replies.map Prod.fst))
              (replaying pool.shared) = some (replaying pool.shared, .ok (some outcomes)) ∧
            outcomes.map (Except.map (·.responseBytes)) = replies.map fun reply => .ok reply.2 := by
  have start : Pool.Sound (workload codec format) (agreeing codec answer known)
      (growing (Faithful codec answer known w)) ⟨w, []⟩ :=
    ⟨faithful, fun _ nothing => absurd nothing List.not_mem_nil⟩
  obtain ⟨sound, _⟩ := (agreement_respected noCollision w).run start ran
  obtain ⟨later, logged, all⟩ := sound.inv.replies
  rw [logged, List.drop_left]
  refine ⟨sound.inv.divergences, fun replies told => ⟨fun reply member => ?_, fun provider => ?_⟩⟩
  · obtain ⟨asked, row, found, own⟩ := all reply (told reply member)
    exact own ▸ sound.inv.rows reply.1 asked row found
  · have backed : ∀ reply ∈ replies, Backed codec (replaying pool.shared) reply :=
      fun reply member => (all reply (told reply member)).2
    have noMiss : misses (probed codec (replaying pool.shared) (replies.map Prod.fst)) = [] := by
      refine misses_of_backed fun call member => ?_
      obtain ⟨reply, listed, rfl⟩ := List.mem_map.mp member
      obtain ⟨row, found, _⟩ := backed reply listed
      rw [found]
      rfl
    obtain ⟨outcomes, filled, bytes⟩ := alone_fillMisses_of_backed provider backed
    refine ⟨outcomes, ?_, bytes⟩
    rw [batchCallCached, alone_bind_of (alone_probe _), noMiss]
    show alone codec (_ <$> _) _ = _
    rw [alone_map, filled]
    rfl

end Agreement

/-! ## Two callers of providers that agree -/

/-- What is always allowed is allowed along every schedule. -/
theorem allowedAlong_of_forall {State Action : Type} {step : State → Action → Option State}
    {guard : State → Action → Prop} {schedule : List Action}
    (allowed : ∀ s, ∀ a ∈ schedule, guard s a) (s : State) :
    allowedAlong step guard s schedule := by
  induction schedule generalizing s with
  | nil => trivial
  | cons a rest inductionHypothesis =>
      refine ⟨allowed s a (List.mem_cons_self ..), ?_⟩
      cases step s a with
      | none => trivial
      | some s' =>
          exact inductionHypothesis (fun t b later => allowed t b (List.mem_cons_of_mem a later)) s'

omit [DecidableEq Hash] in
theorem agreeing_proceed {answer : String → Value → Except JsonRpcErrorBody Value}
    {known : Set (CachedCall Value)}
    (pool : Pool (RpcWorld Value Hash) (RpcOp Value Hash) RpcOp.Answer) (index : ℕ) :
    (agreeing codec answer known).allows pool (.proceed index) := by
  show (agreeing codec answer known).allowsNext pool.shared pool.running[index]?
  unfold Discipline.allowsNext
  split <;> trivial

def priceCall : CachedCall ℕ := ⟨"eth_call", 1, none⟩

/-- A batch and a cross-check that overlap in one call. -/
def overlap : List (PoolAction (RpcEvent ℕ) (RpcTask ℕ)) :=
  [.spawn (.batch "archive" [priceCall, balanceCall]),
    .spawn (.crossCheck "archive" "secondary" balanceCall)] ++
    [0, 1, 0, 1, 1, 1, 1, 0, 0, 0, 0, 0, 0, 1].map .proceed

theorem overlap_replays :
    ∃ pool, execute (workload Codec.numberCodec noHeaders).step ⟨doublingWorld, []⟩ overlap =
        some pool ∧
      (∀ reply ∈ [(balanceCall, [4]), (priceCall, [2])],
        Answers Codec.numberCodec Codec.doubling reply.1 reply.2) ∧
      ∃ outcomes, alone Codec.numberCodec
          (batchCallCached Codec.numberCodec "archive" [balanceCall, priceCall])
          (replaying pool.shared) = some (replaying pool.shared, .ok (some outcomes)) ∧
        outcomes.map (Except.map (·.responseBytes)) = [.ok [4], .ok [2]] := by
  have ran : execute (workload Codec.numberCodec noHeaders).step ⟨doublingWorld, []⟩ overlap =
      some ((execute (workload Codec.numberCodec noHeaders).step ⟨doublingWorld, []⟩
        overlap).get (by decide +kernel)) := (Option.some_get _).symm
  have noCollision :
      Set.InjOn Codec.numberCodec.computeCallHash {balanceCall, priceCall} := by
    rintro a (rfl | rfl) b (rfl | rfl) same
    · rfl
    · exact absurd same (by decide +kernel)
    · exact absurd same (by decide +kernel)
    · rfl
  have faithful : Faithful Codec.numberCodec Codec.doubling {balanceCall, priceCall}
      doublingWorld doublingWorld :=
    { serves := fun _ => Provider.serves_answering _ _ _
      rows := fun _ _ _ found => by cases found
      divergences := rfl
      replies := ⟨[], rfl, fun _ nothing => by cases nothing⟩ }
  have allowed : ∀ pool : Pool (RpcWorld ℕ (List UInt8)) (RpcOp ℕ (List UInt8)) RpcOp.Answer,
      ∀ a ∈ overlap,
      (agreeing Codec.numberCodec Codec.doubling {balanceCall, priceCall}).allows pool a := by
    intro pool a member
    rcases List.mem_append.mp member with spawned | proceeded
    · simp only [List.mem_cons, List.not_mem_nil, or_false] at spawned
      rcases spawned with rfl | rfl
      · show ∀ call ∈ [priceCall, balanceCall], _
        simp
      · show ∀ call ∈ [balanceCall], _
        simp
    · obtain ⟨index, _, rfl⟩ := List.mem_map.mp proceeded
      exact agreeing_proceed pool index
  have law := (replies_replay noCollision faithful
    (execute_guardedRun ran (allowedAlong_of_forall allowed _))).2
      [(balanceCall, [4]), (priceCall, [2])] (by decide +kernel)
  exact ⟨_, ran, law.1, law.2 "archive"⟩

end ProtocolExplorer.Rpc.Routes
