import ProtocolExplorer.Lib.Transition

/-!
# Processes on a shared state

A `Process` performs one statement after another and chooses the next one from the answers.
The statements act on a state that it shares with other processes and with the environment; a
`Pool` interleaves them, and may stop a process between any two statements.

A `Protocol` is an invariant of the shared state and the changes of it that a process must
expect from the others.  `Ensures` is the assertion in front of a process from which it keeps
the protocol and ends in a given postcondition, however it is interleaved.

* `ensures_bind`, `ensures_statement`, `ensures_query`, `ensures_forM`, `ensures_of_uses` — the
  rules for programs;
* `Respects.run` — **in every run of a pool whose events and programs respect a protocol, its
  invariant holds in every state**;
* `run_runAlone` — a process that runs alone is among the runs.
-/

set_option autoImplicit false

namespace ProtocolExplorer.Lib

universe u

/-- A result, or a statement and what to do with its answer. -/
inductive Process (Op : Type u) (Res : Op → Type u) (α : Type u) : Type u where
  | done (result : α)
  | perform (op : Op) (next : Res op → Process Op Res α)

variable {Op : Type u} {Res : Op → Type u} {α β State Event Task : Type u}

namespace Process

protected def bind : Process Op Res α → (α → Process Op Res β) → Process Op Res β
  | done result, f => f result
  | perform op next, f => perform op fun answer => (next answer).bind f

instance : Monad (Process Op Res) where
  pure := done
  bind := Process.bind

/-- The process of a single statement. -/
def statement (op : Op) : Process Op Res (Res op) := perform op done

/-- Has the process come to its end? -/
def ended : Process Op Res α → Bool
  | done _ => true
  | perform .. => false

/-- Run a process with nobody else; `none` when a statement is not enabled. -/
def runAlone (act : State → (op : Op) → Option (State × Res op)) :
    Process Op Res α → State → Option (State × α)
  | done result, s => some (s, result)
  | perform op next, s => (act s op).bind fun (s', answer) => (next answer).runAlone act s'

theorem runAlone_bind {act : State → (op : Op) → Option (State × Res op)} (p : Process Op Res α)
    (f : α → Process Op Res β) (s : State) :
    (p >>= f).runAlone act s = (p.runAlone act s).bind fun (s', a) => (f a).runAlone act s' := by
  induction p generalizing s with
  | done result => rfl
  | perform op next inductionHypothesis =>
      show (act s op).bind _ = ((act s op).bind _).bind _
      rw [Option.bind_assoc]
      refine congrArg (Option.bind (act s op)) (funext fun (s', answer) => ?_)
      exact inductionHypothesis answer s'

/-- Whatever is answered, the results of the process are as stated. -/
def Returns (post : α → Prop) : Process Op Res α → Prop
  | done result => post result
  | perform _ next => ∀ answer, (next answer).Returns post

theorem Returns.runAlone {post : α → Prop} {act : State → (op : Op) → Option (State × Res op)}
    {p : Process Op Res α} {s s' : State} {result : α} (returns : p.Returns post)
    (ran : p.runAlone act s = some (s', result)) : post result := by
  induction p generalizing s with
  | done value =>
      cases ran
      exact returns
  | perform op next inductionHypothesis =>
      obtain ⟨⟨middle, answer⟩, _, rest⟩ := Option.bind_eq_some_iff.mp ran
      exact inductionHypothesis answer (returns answer) rest

/-- Whatever is answered, the process performs only certain statements. -/
def Uses (allowed : Op → Prop) : Process Op Res α → Prop
  | done _ => True
  | perform op next => allowed op ∧ ∀ answer, (next answer).Uses allowed

variable {allowed : Op → Prop}

theorem Uses.mono {allowed' : Op → Prop} {p : Process Op Res α} (uses : p.Uses allowed)
    (implies : ∀ op, allowed op → allowed' op) : p.Uses allowed' := by
  induction p with
  | done result => trivial
  | perform op next inductionHypothesis =>
      exact ⟨implies op uses.1, fun answer => inductionHypothesis answer (uses.2 answer)⟩

theorem uses_pure (result : α) : (pure result : Process Op Res α).Uses allowed := trivial

theorem uses_statement {op : Op} (permitted : allowed op) :
    (statement op : Process Op Res (Res op)).Uses allowed :=
  ⟨permitted, fun _ => trivial⟩

theorem uses_bind {p : Process Op Res α} {f : α → Process Op Res β} (first : p.Uses allowed)
    (rest : ∀ a, (f a).Uses allowed) : (p >>= f).Uses allowed := by
  induction p with
  | done result => exact rest result
  | perform op next inductionHypothesis =>
      exact ⟨first.1, fun answer => inductionHypothesis answer (first.2 answer)⟩

theorem uses_forM {γ : Type u} {body : γ → Process Op Res PUnit.{u + 1}} {xs : List γ}
    (each : ∀ x ∈ xs, (body x).Uses allowed) : (xs.forM body).Uses allowed := by
  induction xs with
  | nil => trivial
  | cons x rest inductionHypothesis =>
      exact uses_bind (each x (List.mem_cons_self ..)) fun _ =>
        inductionHypothesis fun y later => each y (List.mem_cons_of_mem x later)

theorem uses_map {p : Process Op Res α} {f : α → β} (first : p.Uses allowed) :
    (f <$> p).Uses allowed :=
  uses_bind first fun _ => trivial

end Process

/-! ## Pools -/

/-- A shared state, what happens to it from outside, and the programs that run on it. -/
structure Workload (State Event Task : Type u) (Op : Type u) (Res : Op → Type u) where
  occur : State → Event → Option State
  act : State → (op : Op) → Option (State × Res op)
  program : Task → Process Op Res PUnit.{u + 1}

structure Pool (State : Type u) (Op : Type u) (Res : Op → Type u) where
  shared : State
  running : List (Process Op Res PUnit.{u + 1})

inductive PoolAction (Event Task : Type u) where
  | event (e : Event)
  | spawn (task : Task)
  /-- The next statement of a process. -/
  | proceed (index : ℕ)
  /-- A process fails, is killed or has ended. -/
  | stop (index : ℕ)

/-- Restrictions on what happens, what is started and which statements are performed. -/
structure Discipline (State Event Task Op : Type u) where
  event : State → Event → Prop
  task : State → Task → Prop
  op : State → Op → Prop

namespace Workload

variable (W : Workload State Event Task Op Res)

def step (pool : Pool State Op Res) : PoolAction Event Task → Option (Pool State Op Res)
  | .event e => (W.occur pool.shared e).map fun shared => { pool with shared }
  | .spawn task => some { pool with running := pool.running ++ [W.program task] }
  | .proceed index =>
      match pool.running[index]? with
      | some (.perform op next) => (W.act pool.shared op).map fun (shared, answer) =>
          { shared, running := pool.running.set index (next answer) }
      | _ => none
  | .stop index => some { pool with running := pool.running.eraseIdx index }

/-- A process that runs alone is among the runs. -/
theorem run_runAlone (task : Task) {s s' : State}
    (ran : (W.program task).runAlone W.act s = some (s', ⟨⟩))
    (running : List (Process Op Res PUnit.{u + 1})) :
    Run W.step ⟨s, running⟩ ⟨s', running⟩ := by
  have proceeds : ∀ (p : Process Op Res PUnit.{u + 1}) (s : State),
      p.runAlone W.act s = some (s', ⟨⟩) →
        Run W.step ⟨s, running ++ [p]⟩ ⟨s', running ++ [.done ⟨⟩]⟩ := by
    intro p
    induction p with
    | done result =>
        intro s ended
        cases ended
        exact Relation.ReflTransGen.refl
    | perform op next inductionHypothesis =>
        intro s ended
        obtain ⟨⟨middle, answer⟩, acted, rest⟩ := Option.bind_eq_some_iff.mp ended
        refine Relation.ReflTransGen.head ⟨.proceed running.length, trivial, ?_⟩
          (inductionHypothesis answer middle rest)
        simp [step, acted]
  refine Relation.ReflTransGen.head ⟨.spawn task, trivial, rfl⟩
    ((proceeds _ s ran).tail ⟨.stop running.length, trivial, ?_⟩)
  simp [step, List.eraseIdx_append_of_length_le]

end Workload

namespace Discipline

variable (D : Discipline State Event Task Op)

/-- The next statement of a process, if there is one, is allowed. -/
def allowsNext (s : State) : Option (Process Op Res PUnit.{u + 1}) → Prop
  | some (.perform op _) => D.op s op
  | _ => True

/-- The actions a discipline allows. -/
def allows (pool : Pool State Op Res) : PoolAction Event Task → Prop
  | .event e => D.event pool.shared e
  | .spawn task => D.task pool.shared task
  | .proceed index => D.allowsNext pool.shared pool.running[index]?
  | .stop _ => True

variable [∀ s e, Decidable (D.event s e)] [∀ s task, Decidable (D.task s task)]
  [∀ s op, Decidable (D.op s op)]

instance (s : State) : ∀ next : Option (Process Op Res PUnit.{u + 1}),
    Decidable (D.allowsNext s next)
  | some (.perform op _) => inferInstanceAs (Decidable (D.op s op))
  | some (.done _) => inferInstanceAs (Decidable True)
  | none => inferInstanceAs (Decidable True)

instance (pool : Pool State Op Res) : ∀ a, Decidable (D.allows pool a)
  | .event e => inferInstanceAs (Decidable (D.event pool.shared e))
  | .spawn task => inferInstanceAs (Decidable (D.task pool.shared task))
  | .proceed index => inferInstanceAs (Decidable (D.allowsNext pool.shared pool.running[index]?))
  | .stop _ => inferInstanceAs (Decidable True)

end Discipline

/-! ## Protocols -/

/-- An invariant, and the changes a process has to expect between two of its statements. -/
structure Protocol (State : Type u) where
  inv : State → Prop
  evolves : State → State → Prop
  refl : ∀ s, evolves s s
  trans : ∀ {a b c}, evolves a b → evolves b c → evolves a c

section Ensures

variable (W : Workload State Event Task Op Res) (D : Discipline State Event Task Op)
  (P : Protocol State)

/-- From here the process keeps the protocol and ends in the postcondition. -/
def Ensures (post : α → State → Prop) : Process Op Res α → State → Prop
  | .done result, s => post result s
  | .perform op next, s => ∀ s', P.evolves s s' → P.inv s' → D.op s' op →
      ∀ s'' answer, W.act s' op = some (s'', answer) →
        P.inv s'' ∧ P.evolves s' s'' ∧ Ensures post (next answer) s''

variable {W D P} {post : α → State → Prop} {p : Process Op Res α} {s s' : State}

theorem ensures_bind {post : β → State → Prop} {f : α → Process Op Res β}
    (first : Ensures W D P (fun a s => Ensures W D P post (f a) s) p s) :
    Ensures W D P post (p >>= f) s := by
  induction p generalizing s with
  | done result => exact first
  | perform op next inductionHypothesis =>
      intro s' evolved holds allowed s'' answer acted
      obtain ⟨kept, moved, rest⟩ := first s' evolved holds allowed s'' answer acted
      exact ⟨kept, moved, inductionHypothesis answer rest⟩

/-- Consequence: what holds at the end may be used together with the invariant. -/
theorem Ensures.mono {post' : α → State → Prop} (ensures : Ensures W D P post p s)
    (holds : P.inv s)
    (implies : ∀ a s', P.inv s' → P.evolves s s' → post a s' → post' a s') :
    Ensures W D P post' p s := by
  have along : ∀ (p : Process Op Res α) (start : State), P.evolves s start → P.inv start →
      Ensures W D P post p start → Ensures W D P post' p start := by
    intro p
    induction p with
    | done result => exact fun start moved kept ended => implies result start kept moved ended
    | perform op next inductionHypothesis =>
        intro start moved kept ensures s' evolved holds allowed s'' answer acted
        obtain ⟨kept', moved', rest⟩ := ensures s' evolved holds allowed s'' answer acted
        exact ⟨kept', moved', inductionHypothesis answer s''
          (P.trans moved (P.trans evolved moved')) kept' rest⟩
  exact along p s (P.refl s) holds ensures

theorem Ensures.imp {post' : α → State → Prop} (ensures : Ensures W D P post p s)
    (implies : ∀ a s', post a s' → post' a s') : Ensures W D P post' p s := by
  induction p generalizing s with
  | done result => exact implies result s ensures
  | perform op next inductionHypothesis =>
      intro s' evolved holds allowed s'' answer acted
      obtain ⟨kept, moved, rest⟩ := ensures s' evolved holds allowed s'' answer acted
      exact ⟨kept, moved, inductionHypothesis answer rest⟩

/-- A process that is yet to begin bears the changes of the others. -/
theorem Ensures.later (stable : ∀ a, post a s → post a s') (evolved : P.evolves s s')
    (ensures : Ensures W D P post p s) : Ensures W D P post p s' := by
  cases p with
  | done result => exact stable result ensures
  | perform op next => exact fun t moved => ensures t (P.trans evolved moved)

/-- One statement. -/
theorem ensures_statement {op : Op} {post : Res op → State → Prop}
    (effect : ∀ s', P.evolves s s' → P.inv s' → D.op s' op →
      ∀ s'' answer, W.act s' op = some (s'', answer) →
        P.inv s'' ∧ P.evolves s' s'' ∧ post answer s'') :
    Ensures W D P post (Process.statement op) s :=
  effect

/-- One statement of a kind that keeps the protocol. -/
theorem ensures_query {allowed : Op → Prop}
    (keeps : ∀ s op s' answer, P.inv s → D.op s op → allowed op →
      W.act s op = some (s', answer) → P.inv s' ∧ P.evolves s s')
    {op : Op} {post : Res op → State → Prop} (permitted : allowed op)
    (learns : ∀ s' s'' answer, P.evolves s s'' → P.inv s'' → D.op s' op →
      W.act s' op = some (s'', answer) → post answer s'') :
    Ensures W D P post (Process.statement op) s := by
  intro s' evolved holds allowedNow s'' answer acted
  obtain ⟨kept, moved⟩ := keeps s' op s'' answer holds allowedNow permitted acted
  exact ⟨kept, moved, learns s' s'' answer (P.trans evolved moved) kept allowedNow acted⟩

/-- A loop over a list, with an assertion about what is left of it. -/
theorem ensures_forM {γ : Type u} (body : γ → Process Op Res PUnit.{u + 1})
    (assertion : List γ → State → Prop)
    (iteration : ∀ x rest s, P.inv s → assertion (x :: rest) s →
      Ensures W D P (fun _ => assertion rest) (body x) s) {xs : List γ}
    (holds : P.inv s) (start : assertion xs s) :
    Ensures W D P (fun _ => assertion []) (xs.forM body) s := by
  induction xs generalizing s with
  | nil => exact start
  | cons x rest inductionHypothesis =>
      refine ensures_bind ((iteration x rest s holds start).mono holds ?_)
      intro _ s' kept _ reached
      exact inductionHypothesis kept reached

/-- A process whose statements keep the protocol as long as a lasting fact holds. -/
theorem ensures_of_uses {allowed : Op → Prop} {fact : State → Prop}
    (lasting : ∀ s s', P.evolves s s' → fact s → fact s')
    (keeps : ∀ s op s' answer, P.inv s → fact s → D.op s op → allowed op →
      W.act s op = some (s', answer) → P.inv s' ∧ P.evolves s s')
    (uses : p.Uses allowed) (known : fact s) : Ensures W D P (fun _ => fact) p s := by
  induction p generalizing s with
  | done result => exact known
  | perform op next inductionHypothesis =>
      intro s' evolved holds allowedNow s'' answer acted
      have still := lasting s s' evolved known
      obtain ⟨kept, moved⟩ := keeps s' op s'' answer holds still allowedNow uses.1 acted
      exact ⟨kept, moved,
        inductionHypothesis answer (uses.2 answer) (lasting s' s'' moved still)⟩

end Ensures

/-! ## Pools that keep a protocol -/

section Respects

variable (W : Workload State Event Task Op Res) (D : Discipline State Event Task Op)
  (P : Protocol State)

/-- The events and the programs of a workload keep a protocol. -/
structure Respects : Prop where
  event : ∀ s e s', P.inv s → D.event s e → W.occur s e = some s' → P.inv s' ∧ P.evolves s s'
  program : ∀ s task, P.inv s → D.task s task →
    Ensures W D P (fun _ _ => True) (W.program task) s

/-- The invariant holds, and every process is going to keep it. -/
structure Pool.Sound (pool : Pool State Op Res) : Prop where
  inv : P.inv pool.shared
  running : ∀ p ∈ pool.running, Ensures W D P (fun _ _ => True) p pool.shared

variable {W D P} {pool pool' : Pool State Op Res}

/-- One action keeps a pool sound. -/
theorem Respects.step (respects : Respects W D P) {a : PoolAction Event Task}
    (sound : Pool.Sound W D P pool) (allowed : D.allows pool a)
    (stepped : W.step pool a = some pool') :
    Pool.Sound W D P pool' ∧ P.evolves pool.shared pool'.shared := by
  have bear : ∀ {s'}, P.evolves pool.shared s' → ∀ p ∈ pool.running,
      Ensures W D P (fun _ _ => True) p s' :=
    fun moved p member => (sound.running p member).later (fun _ held => held) moved
  cases a with
  | event e =>
      obtain ⟨shared, occurred, rfl⟩ := Option.map_eq_some_iff.mp stepped
      obtain ⟨kept, moved⟩ := respects.event _ e shared sound.inv allowed occurred
      exact ⟨⟨kept, bear moved⟩, moved⟩
  | spawn task =>
      cases stepped
      refine ⟨⟨sound.inv, fun p member => ?_⟩, P.refl _⟩
      rcases List.mem_append.mp member with old | new
      · exact sound.running p old
      · rw [List.mem_singleton.mp new]
        exact respects.program _ task sound.inv allowed
  | proceed index =>
      simp only [Workload.step] at stepped
      split at stepped
      · next op next placed =>
          rw [Discipline.allows, placed] at allowed
          obtain ⟨⟨shared, answer⟩, acted, rfl⟩ := Option.map_eq_some_iff.mp stepped
          have ready := sound.running _ (List.mem_of_getElem? placed)
          obtain ⟨kept, moved, rest⟩ :=
            ready _ (P.refl _) sound.inv allowed shared answer acted
          refine ⟨⟨kept, fun p member => ?_⟩, moved⟩
          rcases List.mem_or_eq_of_mem_set member with other | rfl
          · exact bear moved p other
          · exact rest
      · cases stepped
  | stop index =>
      cases stepped
      exact ⟨⟨sound.inv, fun p member => sound.running p (List.mem_of_mem_eraseIdx member)⟩,
        P.refl _⟩

/-- **Every run of a pool keeps the protocol.** -/
theorem Respects.run (respects : Respects W D P) (sound : Pool.Sound W D P pool)
    (ran : GuardedRun W.step D.allows pool pool') :
    Pool.Sound W D P pool' ∧ P.evolves pool.shared pool'.shared := by
  induction ran with
  | refl => exact ⟨sound, P.refl _⟩
  | tail _ last inductionHypothesis =>
      obtain ⟨a, allowed, stepped⟩ := last
      obtain ⟨soundThen, movedThen⟩ := inductionHypothesis
      obtain ⟨soundNow, moved⟩ := respects.step soundThen allowed stepped
      exact ⟨soundNow, P.trans movedThen moved⟩

end Respects

end ProtocolExplorer.Lib
