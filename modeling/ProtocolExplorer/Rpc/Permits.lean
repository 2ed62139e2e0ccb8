import ProtocolExplorer.Lib.Semaphore
import ProtocolExplorer.Lib.Transition

/-!
# Permits for calls to the providers

`acquire_rpc_permits` takes a permit of the limiter of the task a call is labelled with, and
then one of the global semaphore; both are given back together, when the call ends or its
future is dropped.  Calls without a label, and calls of tasks without a limiter, need the global
permit only.

A step is one call that asks for the first permit, goes on to the second one, ends, or is
dropped wherever it stands.

* `inFlight_le` — no run exceeds a limit, and the snapshot of a task counts its calls;
* `drains` — no schedule deadlocks: left to themselves, the calls end, and all permits are back;
* `waits_its_turn` — the global permit is handed out first come, first served.
-/

set_option autoImplicit false

namespace ProtocolExplorer.Rpc

open ProtocolExplorer.Lib

universe u

structure TaskRpcSnapshot where
  limit : ℕ
  inFlight : ℕ
  deriving DecidableEq, Repr

/-- What `set_global_concurrency_limit` and `set_task_concurrency_limit` have been told. -/
structure RpcLimits where
  global : Option ℕ
  task : String → Option ℕ

/-- No limit is zero. -/
structure RpcLimits.Positive (limits : RpcLimits) : Prop where
  global : ∀ limit, limits.global = some limit → 0 < limit
  task : ∀ task limit, limits.task task = some limit → 0 < limit

/-- The limits of `RpcManager::new`. -/
def rpcManagerLimits : RpcLimits where
  global := some 24
  task
    | "indexer" => some 8
    | "finality" => some 2
    | "reorg" => some 2
    | "valuator" => some 16
    | "staker" => some 6
    | _ => none

/-- The semaphores of the process and the calls that hold their permits or wait for them. -/
structure Permits (Call : Type u) where
  taskRpcLimiters : String → Option (Semaphore Call)
  globalRpcSemaphore : Option (Semaphore Call)
  /-- In `rpc_task_permit`. -/
  atTask : Finset Call
  /-- In `global_rpc_permit`, or past it. -/
  atGlobal : Finset Call

inductive PermitAction (Call : Type u) where
  /-- A call asks for the permit of its task. -/
  | request (call : Call)
  /-- A call with the permit of its task asks for the global one. -/
  | proceed (call : Call)
  /-- A call with both permits ends. -/
  | finish (call : Call)
  /-- The future of a call is dropped. -/
  | abandon (call : Call)
  deriving DecidableEq

variable {Call : Type u}

/-- A call gives its permits back after its answer. -/
def PermitAction.isFinish : PermitAction Call → Bool
  | finish _ => true
  | _ => false

/-- There is no semaphore, or the call has its permit. -/
def Granted (semaphore : Option (Semaphore Call)) (call : Call) : Prop :=
  match semaphore with
  | none => True
  | some s => call ∈ s.holders

instance [DecidableEq Call] (semaphore : Option (Semaphore Call)) (call : Call) :
    Decidable (Granted semaphore call) :=
  match semaphore with
  | none => inferInstanceAs (Decidable True)
  | some s => inferInstanceAs (Decidable (call ∈ s.holders))

theorem Granted.map {semaphore : Option (Semaphore Call)}
    {change : Semaphore Call → Semaphore Call} {other : Call}
    (keeps : ∀ t : Semaphore Call, other ∈ t.holders → other ∈ (change t).holders)
    (granted : Granted semaphore other) : Granted (semaphore.map change) other := by
  cases semaphore with
  | none => trivial
  | some t => exact keeps t granted

/-! ## Who is at a semaphore -/

/-- The holders and waiters of a semaphore, if there is one, are the given calls. -/
structure Queues (semaphore : Option (Semaphore Call)) (present : Call → Prop) : Prop where
  distinct : ∀ s, semaphore = some s → s.members.Nodup
  members : ∀ s, semaphore = some s → ∀ call, call ∈ s.members ↔ present call

section Queues

variable {semaphore : Option (Semaphore Call)} {present : Call → Prop} {call : Call}

theorem queues_idle (limit : Option ℕ) (absent : ∀ call, ¬present call) :
    Queues (limit.map (Semaphore.idle : ℕ → Semaphore Call)) present where
  distinct := by
    rintro s found
    obtain ⟨n, _, rfl⟩ := Option.map_eq_some_iff.mp found
    exact List.nodup_nil
  members := by
    rintro s found call
    obtain ⟨n, _, rfl⟩ := Option.map_eq_some_iff.mp found
    exact iff_of_false List.not_mem_nil (absent call)

theorem Queues.congr {present' : Call → Prop} (queues : Queues semaphore present)
    (same : ∀ call, present' call ↔ present call) : Queues semaphore present' where
  distinct := queues.distinct
  members s found call := (queues.members s found call).trans (same call).symm

theorem Queues.acquire (queues : Queues semaphore present) (absent : ¬present call) :
    Queues (semaphore.map (·.acquire call)) fun other => other = call ∨ present other where
  distinct := by
    rintro s found
    obtain ⟨before, known, rfl⟩ := Option.map_eq_some_iff.mp found
    rw [(before.members_acquire call).nodup_iff, List.nodup_cons, queues.members before known]
    exact ⟨absent, queues.distinct before known⟩
  members := by
    rintro s found other
    obtain ⟨before, known, rfl⟩ := Option.map_eq_some_iff.mp found
    rw [Semaphore.mem_members_acquire, queues.members before known]

theorem Queues.drop [DecidableEq Call] (queues : Queues semaphore present) :
    Queues (semaphore.map (·.drop call)) fun other => other ≠ call ∧ present other where
  distinct := by
    rintro s found
    obtain ⟨before, known, rfl⟩ := Option.map_eq_some_iff.mp found
    rw [(before.members_drop call).nodup_iff]
    exact (queues.distinct before known).erase call
  members := by
    rintro s found other
    obtain ⟨before, known, rfl⟩ := Option.map_eq_some_iff.mp found
    rw [Semaphore.mem_members_drop (queues.distinct before known), queues.members before known]

/-- Calls with the permit of one semaphore are no more than its limit. -/
theorem card_le_of_granted [DecidableEq Call] {s : Semaphore Call} {calls : Finset Call}
    (granted : ∀ call ∈ calls, call ∈ s.holders) : calls.card ≤ s.holders.length :=
  (Finset.card_le_card fun call member => List.mem_toFinset.mpr (granted call member)).trans
    s.holders.toFinset_card_le

theorem holders_length_le {limiter : Semaphore Call} {semaphore : Option (Semaphore Call)}
    {limit : ℕ} (found : semaphore = some limiter)
    (same : semaphore.map (·.limit) = some limit) : limiter.holders.length ≤ limit := by
  rw [found, Option.map_some, Option.some.injEq] at same
  exact same ▸ limiter.bounded

/-- A semaphore at which nobody is has all its permits. -/
theorem eq_idle_of_queues {limit : Option ℕ} (queues : Queues semaphore present) (absent : ∀ call, ¬present call)
    (limited : semaphore.map (·.limit) = limit) : semaphore = limit.map Semaphore.idle := by
  cases semaphore with
  | none => exact limited ▸ rfl
  | some s =>
      have empty : s.members = [] := List.eq_nil_iff_forall_not_mem.mpr fun call member =>
        absent call ((queues.members s rfl call).mp member)
      rw [← limited]
      exact congrArg some (Semaphore.eq_idle_of_empty empty)

end Queues

namespace Permits

def configured (limits : RpcLimits) : Permits Call where
  taskRpcLimiters task := (limits.task task).map Semaphore.idle
  globalRpcSemaphore := limits.global.map Semaphore.idle
  atTask := ∅
  atGlobal := ∅

/-- `task_concurrency_snapshot`. -/
def taskConcurrencySnapshot (s : Permits Call) (task : String) : Option TaskRpcSnapshot :=
  (s.taskRpcLimiters task).map fun limiter =>
    ⟨limiter.limit, limiter.limit - (limiter.limit - limiter.holders.length)⟩

variable (rpcTaskLabel : Call → Option String)

/-- The limiter that `rpc_task_permit` finds. -/
def limiterOf (s : Permits Call) (call : Call) : Option (Semaphore Call) :=
  (rpcTaskLabel call).bind s.taskRpcLimiters

/-- The limiters after something happened to the one of a call. -/
def withLimiterOf (s : Permits Call) (call : Call) (change : Semaphore Call → Semaphore Call) :
    String → Option (Semaphore Call) :=
  match rpcTaskLabel call with
  | none => s.taskRpcLimiters
  | some task =>
      Function.update s.taskRpcLimiters task ((s.taskRpcLimiters task).map change)

theorem withLimiterOf_eq (s : Permits Call) (call : Call) (task : String)
    (change : Semaphore Call → Semaphore Call) :
    s.withLimiterOf rpcTaskLabel call change task =
      if rpcTaskLabel call = some task then (s.taskRpcLimiters task).map change
      else s.taskRpcLimiters task := by
  unfold withLimiterOf
  cases label : rpcTaskLabel call with
  | none => rw [if_neg (by simp)]
  | some own =>
      by_cases same : own = task
      · subst same
        rw [if_pos rfl]
        exact Function.update_self own _ _
      · rw [if_neg (by simpa using same)]
        exact Function.update_of_ne (Ne.symm same) _ _

section Limiters

variable {rpcTaskLabel}

theorem map_limit_withLimiterOf {s : Permits Call} {call : Call} {change : Semaphore Call → Semaphore Call}
    (same : ∀ t : Semaphore Call, (change t).limit = t.limit) (task : String) :
    (s.withLimiterOf rpcTaskLabel call change task).map (·.limit) =
      (s.taskRpcLimiters task).map (·.limit) := by
  rw [withLimiterOf_eq]
  split
  · rw [Option.map_map]
    exact congrArg (fun f => (s.taskRpcLimiters task).map f) (funext same)
  · rfl

/-- A change of limiters that keeps the permit of a call. -/
theorem granted_withLimiterOf {change : Semaphore Call → Semaphore Call} {s t : Permits Call}
    {call other : Call} (limiters : t.taskRpcLimiters = s.withLimiterOf rpcTaskLabel call change)
    (keeps : ∀ t : Semaphore Call, other ∈ t.holders → other ∈ (change t).holders)
    (granted : Granted (s.limiterOf rpcTaskLabel other) other) :
    Granted (t.limiterOf rpcTaskLabel other) other := by
  unfold limiterOf at granted ⊢
  cases label : rpcTaskLabel other with
  | none => trivial
  | some task =>
      rw [label, Option.bind_some] at granted
      rw [Option.bind_some, limiters, withLimiterOf_eq]
      split
      · exact granted.map keeps
      · exact granted

end Limiters

variable [DecidableEq Call]

/-- The call has its permits: it is on its way to the provider. -/
def InFlight (s : Permits Call) (call : Call) : Prop :=
  call ∈ s.atGlobal ∧ Granted s.globalRpcSemaphore call

instance (s : Permits Call) (call : Call) : Decidable (s.InFlight call) :=
  inferInstanceAs (Decidable (_ ∧ _))

/-- `RpcPermitGuards` is dropped. -/
def release (s : Permits Call) (call : Call) : Permits Call where
  taskRpcLimiters := s.withLimiterOf rpcTaskLabel call (·.drop call)
  globalRpcSemaphore := s.globalRpcSemaphore.map (·.drop call)
  atTask := s.atTask.erase call
  atGlobal := s.atGlobal.erase call

/-- One step of one call. -/
def step (s : Permits Call) : PermitAction Call → Option (Permits Call)
  | .request call =>
      if call ∉ s.atTask ∧ call ∉ s.atGlobal then some { s with
        taskRpcLimiters := s.withLimiterOf rpcTaskLabel call (·.acquire call)
        atTask := insert call s.atTask }
      else none
  | .proceed call =>
      if call ∈ s.atTask ∧ Granted (s.limiterOf rpcTaskLabel call) call then some { s with
        globalRpcSemaphore := s.globalRpcSemaphore.map (·.acquire call)
        atTask := s.atTask.erase call
        atGlobal := insert call s.atGlobal }
      else none
  | .finish call => if s.InFlight call then some (s.release rpcTaskLabel call) else none
  | .abandon call =>
      if call ∈ s.atTask ∨ call ∈ s.atGlobal then some (s.release rpcTaskLabel call) else none

/-! ## The invariant -/

/-- Every semaphore has its configured limit and is visited by the calls that are at it; who is
past the first semaphore has its permit. -/
structure Consistent (limits : RpcLimits) (s : Permits Call) : Prop where
  taskLimit : ∀ task, (s.taskRpcLimiters task).map (·.limit) = limits.task task
  globalLimit : s.globalRpcSemaphore.map (·.limit) = limits.global
  apart : Disjoint s.atTask s.atGlobal
  taskQueues : ∀ task, Queues (s.taskRpcLimiters task) fun call =>
    rpcTaskLabel call = some task ∧ (call ∈ s.atTask ∨ call ∈ s.atGlobal)
  globalQueues : Queues s.globalRpcSemaphore (· ∈ s.atGlobal)
  passed : ∀ call ∈ s.atGlobal, Granted (s.limiterOf rpcTaskLabel call) call

variable {rpcTaskLabel} {limits : RpcLimits} {s s' : Permits Call} {call : Call}

omit [DecidableEq Call] in
theorem configured_consistent :
    (configured limits : Permits Call).Consistent rpcTaskLabel limits where
  taskLimit task := by
    rw [configured, Option.map_map]
    exact Option.map_id'
  globalLimit := by
    rw [configured, Option.map_map]
    exact Option.map_id'
  apart := Finset.disjoint_empty_left _
  taskQueues task := queues_idle _ fun call present =>
    present.2.elim (Finset.notMem_empty _) (Finset.notMem_empty _)
  globalQueues := queues_idle _ fun call => Finset.notMem_empty call
  passed call member := absurd member (Finset.notMem_empty call)

/-! ## One step -/

/-- What a step does, with its guard. -/
theorem step_request (stepped : s.step rpcTaskLabel (.request call) = some s') :
    call ∉ s.atTask ∧ call ∉ s.atGlobal ∧ s' = { s with
      taskRpcLimiters := s.withLimiterOf rpcTaskLabel call (·.acquire call)
      atTask := insert call s.atTask } := by
  simp only [step, Option.ite_none_right_eq_some, Option.some.injEq] at stepped
  exact ⟨stepped.1.1, stepped.1.2, stepped.2.symm⟩

theorem step_proceed (stepped : s.step rpcTaskLabel (.proceed call) = some s') :
    call ∈ s.atTask ∧ Granted (s.limiterOf rpcTaskLabel call) call ∧ s' = { s with
      globalRpcSemaphore := s.globalRpcSemaphore.map (·.acquire call)
      atTask := s.atTask.erase call
      atGlobal := insert call s.atGlobal } := by
  simp only [step, Option.ite_none_right_eq_some, Option.some.injEq] at stepped
  exact ⟨stepped.1.1, stepped.1.2, stepped.2.symm⟩

theorem step_finish (stepped : s.step rpcTaskLabel (.finish call) = some s') :
    s.InFlight call ∧ s' = s.release rpcTaskLabel call := by
  simp only [step, Option.ite_none_right_eq_some, Option.some.injEq] at stepped
  exact ⟨stepped.1, stepped.2.symm⟩

theorem step_abandon (stepped : s.step rpcTaskLabel (.abandon call) = some s') :
    (call ∈ s.atTask ∨ call ∈ s.atGlobal) ∧ s' = s.release rpcTaskLabel call := by
  simp only [step, Option.ite_none_right_eq_some, Option.some.injEq] at stepped
  exact ⟨stepped.1, stepped.2.symm⟩

theorem Consistent.request (consistent : s.Consistent rpcTaskLabel limits)
    (stepped : s.step rpcTaskLabel (.request call) = some s') :
    s'.Consistent rpcTaskLabel limits := by
  obtain ⟨notTask, notGlobal, rfl⟩ := step_request stepped
  exact
    { taskLimit := fun task => (map_limit_withLimiterOf (fun t => t.limit_acquire call) task).trans
        (consistent.taskLimit task)
      globalLimit := consistent.globalLimit
      apart := Finset.disjoint_insert_left.mpr ⟨notGlobal, consistent.apart⟩
      taskQueues := fun task => by
        simp only [withLimiterOf_eq]
        split
        · next labelled =>
            refine ((consistent.taskQueues task).acquire ?_).congr fun other => ?_
            · exact fun present => present.2.elim notTask notGlobal
            · rw [Finset.mem_insert]
              by_cases same : other = call
              · simp [same, labelled]
              · simp [same]
        · next labelled =>
            refine (consistent.taskQueues task).congr fun other => ?_
            rw [Finset.mem_insert]
            by_cases same : other = call
            · simp [same, labelled]
            · simp [same]
      globalQueues := consistent.globalQueues
      passed := fun other member => granted_withLimiterOf rfl
        (fun t holds => t.holders_acquire holds) (consistent.passed other member) }

theorem Consistent.proceed (consistent : s.Consistent rpcTaskLabel limits)
    (stepped : s.step rpcTaskLabel (.proceed call) = some s') :
    s'.Consistent rpcTaskLabel limits := by
  obtain ⟨atTask, granted, rfl⟩ := step_proceed stepped
  have notGlobal : call ∉ s.atGlobal := Finset.disjoint_left.mp consistent.apart atTask
  exact
    { taskLimit := consistent.taskLimit
      globalLimit := by
        rw [Option.map_map]
        refine Eq.trans ?_ consistent.globalLimit
        exact congrArg (fun f => s.globalRpcSemaphore.map f) (funext fun t => t.limit_acquire call)
      apart := by
        rw [Finset.disjoint_insert_right]
        exact ⟨Finset.notMem_erase call _,
          consistent.apart.mono_left (Finset.erase_subset call _)⟩
      taskQueues := fun task => (consistent.taskQueues task).congr fun other => by
        rw [Finset.mem_erase, Finset.mem_insert]
        by_cases same : other = call
        · simp [same, atTask]
        · simp [same]
      globalQueues := (consistent.globalQueues.acquire notGlobal).congr fun other =>
        Finset.mem_insert
      passed := fun other member => by
        rcases Finset.mem_insert.mp member with rfl | before
        · exact granted
        · exact consistent.passed other before }

theorem Consistent.release (consistent : s.Consistent rpcTaskLabel limits) (call : Call) :
    (s.release rpcTaskLabel call).Consistent rpcTaskLabel limits where
  taskLimit task := (map_limit_withLimiterOf (fun t => t.limit_drop call) task).trans
    (consistent.taskLimit task)
  globalLimit := by
    rw [Permits.release, Option.map_map]
    refine Eq.trans ?_ consistent.globalLimit
    exact congrArg (fun f => s.globalRpcSemaphore.map f) (funext fun t => t.limit_drop call)
  apart := consistent.apart.mono (Finset.erase_subset call _) (Finset.erase_subset call _)
  taskQueues task := by
    simp only [Permits.release, withLimiterOf_eq, Finset.mem_erase]
    split
    · refine (consistent.taskQueues task).drop.congr fun other => ?_
      tauto
    · next labelled =>
        refine (consistent.taskQueues task).congr fun other => ?_
        by_cases same : other = call
        · simp [same, labelled]
        · simp [same]
  globalQueues := consistent.globalQueues.drop.congr fun other => Finset.mem_erase
  passed other member := by
    obtain ⟨different, before⟩ := Finset.mem_erase.mp member
    exact granted_withLimiterOf rfl (fun t holds => t.holders_drop holds different)
      (consistent.passed other before)

theorem Consistent.step {a : PermitAction Call} (consistent : s.Consistent rpcTaskLabel limits)
    (stepped : s.step rpcTaskLabel a = some s') : s'.Consistent rpcTaskLabel limits := by
  cases a with
  | request call => exact consistent.request stepped
  | proceed call => exact consistent.proceed stepped
  | finish call => exact (step_finish stepped).2 ▸ consistent.release call
  | abandon call => exact (step_abandon stepped).2 ▸ consistent.release call

theorem consistent_of_run (run : Run (Permits.step rpcTaskLabel) (configured limits) s) :
    s.Consistent rpcTaskLabel limits :=
  GuardedRun.invariant (fun _ _ _ consistent _ stepped => consistent.step stepped) run
    configured_consistent

/-! ## The limits -/

/-- **No run exceeds a limit.**  Calls on their way to the providers are no more than the
global limit; those of a task are no more than its limit, and the snapshot of the task counts
them among the calls that hold its permits. -/
theorem inFlight_le (run : Run (Permits.step rpcTaskLabel) (configured limits) s)
    {calls : Finset Call} (inFlight : ∀ call ∈ calls, s.InFlight call) :
    (∀ limit, limits.global = some limit → calls.card ≤ limit) ∧
    ∀ task limit, limits.task task = some limit →
      ∃ snapshot, s.taskConcurrencySnapshot task = some snapshot ∧ snapshot.limit = limit ∧
        snapshot.inFlight ≤ limit ∧
        ((∀ call ∈ calls, rpcTaskLabel call = some task) → calls.card ≤ snapshot.inFlight) := by
  have consistent := consistent_of_run run
  constructor
  · intro limit known
    have limited := consistent.globalLimit.trans known
    obtain ⟨semaphore, found, _⟩ := Option.map_eq_some_iff.mp limited
    refine (card_le_of_granted fun call member => ?_).trans (holders_length_le found limited)
    have granted := (inFlight call member).2
    rwa [found] at granted
  · intro task limit known
    have limited := (consistent.taskLimit task).trans known
    obtain ⟨limiter, found, same⟩ := Option.map_eq_some_iff.mp limited
    have counted : limiter.limit - (limiter.limit - limiter.holders.length) =
        limiter.holders.length := Nat.sub_sub_self limiter.bounded
    refine ⟨_, congrArg (Option.map _) found, same, ?_, fun labelled => ?_⟩
    · exact (le_of_eq counted).trans (holders_length_le found limited)
    · show calls.card ≤ limiter.limit - (limiter.limit - limiter.holders.length)
      rw [counted]
      refine card_le_of_granted fun call member => ?_
      have granted := consistent.passed call (inFlight call member).1
      rwa [limiterOf, labelled call member, Option.bind_some, found] at granted

/-- Three calls of the watcher for finality, two of which have come through. -/
def threeCalls : List (PermitAction ℕ) :=
  [.request 0, .request 1, .request 2, .proceed 0, .proceed 1]

def finalityCalls (_ : ℕ) : Option String := some "finality"

def finalityPermits : Permits ℕ :=
  (execute (Permits.step finalityCalls) (configured rpcManagerLimits) threeCalls).get
    (by decide +kernel)

theorem finalityPermits_run :
    Run (Permits.step finalityCalls) (configured rpcManagerLimits) finalityPermits :=
  execute_run (Option.some_get _).symm

theorem finalityCalls_inFlight_le :
    (finalityPermits.step finalityCalls (.proceed 2)).isNone ∧
      ∃ snapshot, finalityPermits.taskConcurrencySnapshot "finality" = some snapshot ∧
        snapshot.limit = 2 ∧ snapshot.inFlight ≤ 2 ∧ 2 ≤ snapshot.inFlight := by
  have inFlight : ∀ call ∈ ({0, 1} : Finset ℕ), finalityPermits.InFlight call := by
    decide +kernel
  obtain ⟨snapshot, shown, limit, bounded, counts⟩ :=
    (inFlight_le finalityPermits_run inFlight).2 "finality" 2 rfl
  exact ⟨by decide +kernel, snapshot, shown, limit, bounded, counts fun _ _ => rfl⟩

/-! ## Draining -/

/-- Steps that the calls have left. -/
def work (s : Permits Call) : ℕ := 2 * s.atTask.card + s.atGlobal.card

/-- A step that brings no new call lowers the work. -/
theorem work_step (consistent : s.Consistent rpcTaskLabel limits) {a : PermitAction Call}
    (noRequest : ∀ call, a ≠ .request call) (stepped : s.step rpcTaskLabel a = some s') :
    s'.work + 1 ≤ s.work := by
  cases a with
  | request call => exact absurd rfl (noRequest call)
  | proceed call =>
      obtain ⟨atTask, _, rfl⟩ := step_proceed stepped
      have notGlobal : call ∉ s.atGlobal := Finset.disjoint_left.mp consistent.apart atTask
      have less := Finset.card_erase_add_one atTask
      have more := Finset.card_insert_of_notMem notGlobal
      simp only [work]
      omega
  | finish call =>
      obtain ⟨⟨atGlobal, _⟩, rfl⟩ := step_finish stepped
      have less := Finset.card_erase_add_one atGlobal
      have kept := Finset.card_erase_le (s := s.atTask) (a := call)
      simp only [work, release]
      omega
  | abandon call =>
      obtain ⟨present, rfl⟩ := step_abandon stepped
      have taskKept := Finset.card_erase_le (s := s.atTask) (a := call)
      have globalKept := Finset.card_erase_le (s := s.atGlobal) (a := call)
      simp only [work, release]
      rcases present with atTask | atGlobal
      · have less := Finset.card_erase_add_one atTask
        omega
      · have less := Finset.card_erase_add_one atGlobal
        omega

theorem finish_enabled (consistent : s.Consistent rpcTaskLabel limits)
    (positive : limits.Positive) (atGlobal : call ∈ s.atGlobal) :
    ∃ other, (s.step rpcTaskLabel (.finish other)).isSome := by
  suffices inFlight : ∃ other, s.InFlight other by
    obtain ⟨other, ready⟩ := inFlight
    exact ⟨other, by rw [step, if_pos ready]; rfl⟩
  cases found : s.globalRpcSemaphore with
  | none => exact ⟨call, atGlobal, by rw [found]; trivial⟩
  | some semaphore =>
      have limited := consistent.globalLimit
      rw [found, Option.map_some] at limited
      have members := consistent.globalQueues.members semaphore found
      obtain ⟨holder, holds⟩ := Semaphore.exists_holder
        (positive.global _ limited.symm) ((members call).mpr atGlobal)
      refine ⟨holder, (members holder).mp (Semaphore.mem_members_of_holder holds), ?_⟩
      rw [found]
      exact holds

theorem proceed_enabled (consistent : s.Consistent rpcTaskLabel limits)
    (positive : limits.Positive) (atTask : call ∈ s.atTask) (noneFurther : s.atGlobal = ∅) :
    ∃ other, (s.step rpcTaskLabel (.proceed other)).isSome := by
  suffices granted : ∃ other ∈ s.atTask, Granted (s.limiterOf rpcTaskLabel other) other by
    obtain ⟨other, member, ready⟩ := granted
    exact ⟨other, by rw [step, if_pos ⟨member, ready⟩]; rfl⟩
  cases found : s.limiterOf rpcTaskLabel call with
  | none => exact ⟨call, atTask, by rw [found]; trivial⟩
  | some limiter =>
      obtain ⟨task, label, known⟩ := Option.bind_eq_some_iff.mp found
      have limited := consistent.taskLimit task
      rw [known, Option.map_some] at limited
      have members := (consistent.taskQueues task).members limiter known
      obtain ⟨holder, holds⟩ := Semaphore.exists_holder
        (positive.task task _ limited.symm) ((members call).mpr ⟨label, Or.inl atTask⟩)
      obtain ⟨labelled, present⟩ :=
        (members holder).mp (Semaphore.mem_members_of_holder holds)
      have early : holder ∈ s.atTask :=
        present.resolve_right (noneFurther ▸ Finset.notMem_empty holder)
      refine ⟨holder, early, ?_⟩
      rw [limiterOf, labelled, Option.bind_some, known]
      exact holds

omit [DecidableEq Call] in
theorem eq_configured (consistent : s.Consistent rpcTaskLabel limits) (noTask : s.atTask = ∅)
    (noGlobal : s.atGlobal = ∅) : s = configured limits := by
  have absent : ∀ call, call ∉ s.atTask ∧ call ∉ s.atGlobal := fun call =>
    ⟨noTask ▸ Finset.notMem_empty call, noGlobal ▸ Finset.notMem_empty call⟩
  have limiters : s.taskRpcLimiters = fun task => (limits.task task).map Semaphore.idle :=
    funext fun task => eq_idle_of_queues (consistent.taskQueues task)
      (fun call present => present.2.elim (absent call).1 (absent call).2)
      (consistent.taskLimit task)
  have global := eq_idle_of_queues consistent.globalQueues (fun call => (absent call).2)
    consistent.globalLimit
  cases s
  cases limiters
  cases global
  cases noTask
  cases noGlobal
  rfl

theorem work_execute (consistent : s.Consistent rpcTaskLabel limits)
    {actions : List (PermitAction Call)} (noRequest : ∀ a ∈ actions, ∀ call, a ≠ .request call)
    (executed : execute (Permits.step rpcTaskLabel) s actions = some s') :
    s'.Consistent rpcTaskLabel limits ∧ actions.length + s'.work ≤ s.work := by
  induction actions generalizing s with
  | nil =>
      cases executed
      exact ⟨consistent, by simp⟩
  | cons a rest inductionHypothesis =>
      rw [execute] at executed
      split at executed
      · cases executed
      · next middle stepped =>
          have lower := work_step consistent (noRequest a (List.mem_cons_self ..)) stepped
          obtain ⟨kept, shorter⟩ := inductionHypothesis (consistent.step stepped)
            (fun b later => noRequest b (List.mem_cons_of_mem a later)) executed
          exact ⟨kept, by rw [List.length_cons]; omega⟩

/-- **No deadlock and no permit lost.**  From any state of a run, a schedule without new calls
is no longer than the work that is left, whichever calls it takes in which order and whichever
it drops; and where no call can go on any more, all permits are back. -/
theorem drains (positive : limits.Positive)
    (run : Run (Permits.step rpcTaskLabel) (configured limits) s)
    {actions : List (PermitAction Call)} (noRequest : ∀ a ∈ actions, ∀ call, a ≠ .request call)
    (executed : execute (Permits.step rpcTaskLabel) s actions = some s') :
    actions.length + s'.work ≤ s.work ∧
      ((∀ call, s'.step rpcTaskLabel (.proceed call) = none ∧
        s'.step rpcTaskLabel (.finish call) = none) → s' = configured limits) := by
  obtain ⟨consistent, shorter⟩ := work_execute (consistent_of_run run) noRequest executed
  refine ⟨shorter, fun stuck => ?_⟩
  have noGlobal : s'.atGlobal = ∅ := by
    refine Finset.eq_empty_of_forall_notMem fun call member => ?_
    obtain ⟨other, enabled⟩ := finish_enabled consistent positive member
    rw [(stuck other).2] at enabled
    cases enabled
  have noTask : s'.atTask = ∅ := by
    refine Finset.eq_empty_of_forall_notMem fun call member => ?_
    obtain ⟨other, enabled⟩ := proceed_enabled consistent positive member noGlobal
    rw [(stuck other).1] at enabled
    cases enabled
  exact eq_configured consistent noTask noGlobal

theorem rpcManagerLimits_positive : rpcManagerLimits.Positive where
  global := by decide
  task task limit known := by
    unfold rpcManagerLimits at known
    grind

def lastCalls : List (PermitAction ℕ) := [.abandon 2, .finish 1, .finish 0]

theorem finalityCalls_drain :
    ∃ s, execute (Permits.step finalityCalls) finalityPermits lastCalls = some s ∧
      3 + s.work ≤ finalityPermits.work ∧
        ((∀ call, s.step finalityCalls (.proceed call) = none ∧
          s.step finalityCalls (.finish call) = none) → s = configured rpcManagerLimits) := by
  have ran : execute (Permits.step finalityCalls) finalityPermits lastCalls = some
      ((execute (Permits.step finalityCalls) finalityPermits lastCalls).get (by decide +kernel)) :=
    (Option.some_get _).symm
  exact ⟨_, ran, drains rpcManagerLimits_positive finalityPermits_run (by simp [lastCalls]) ran⟩

/-! ## First come, first served -/

/-- The place of a call in the queue for the global permit. -/
def globalRank (s : Permits Call) (call : Call) : ℕ :=
  match s.globalRpcSemaphore with
  | none => 0
  | some semaphore => semaphore.waiters.idxOf call

def WaitsGlobal (s : Permits Call) (call : Call) : Prop :=
  ∃ semaphore, s.globalRpcSemaphore = some semaphore ∧ call ∈ semaphore.waiters

/-- A call that stands at the global semaphore stays there while nobody ends it. -/
theorem mem_atGlobal_step {a : PermitAction Call} (atGlobal : call ∈ s.atGlobal)
    (notFinished : a ≠ .finish call) (notAbandoned : a ≠ .abandon call)
    (stepped : s.step rpcTaskLabel a = some s') : call ∈ s'.atGlobal := by
  cases a with
  | request other =>
      obtain ⟨_, _, rfl⟩ := step_request stepped
      exact atGlobal
  | proceed other =>
      obtain ⟨_, _, rfl⟩ := step_proceed stepped
      exact Finset.mem_insert_of_mem atGlobal
  | finish other =>
      obtain ⟨_, rfl⟩ := step_finish stepped
      exact Finset.mem_erase.mpr ⟨fun same => notFinished (same ▸ rfl), atGlobal⟩
  | abandon other =>
      obtain ⟨_, rfl⟩ := step_abandon stepped
      exact Finset.mem_erase.mpr ⟨fun same => notAbandoned (same ▸ rfl), atGlobal⟩

/-- No step moves a waiting call back, and a permit that is given back moves it forward. -/
theorem globalRank_step (consistent : s.Consistent rpcTaskLabel limits) {a : PermitAction Call}
    (atGlobal : call ∈ s.atGlobal) (notAbandoned : a ≠ .abandon call)
    (stepped : s.step rpcTaskLabel a = some s') (waits : s'.WaitsGlobal call) :
    s.WaitsGlobal call ∧ s'.globalRank call + [a].countP (·.isFinish) ≤ s.globalRank call := by
  obtain ⟨after, found, waiting⟩ := waits
  have rank : s'.globalRank call = after.waiters.idxOf call := by rw [globalRank, found]
  cases a with
  | request other =>
      obtain ⟨_, _, rfl⟩ := step_request stepped
      exact ⟨⟨after, found, waiting⟩, le_refl _⟩
  | proceed other =>
      obtain ⟨atTask, _, rfl⟩ := step_proceed stepped
      have different : call ≠ other := fun same =>
        Finset.disjoint_left.mp consistent.apart atTask (same ▸ atGlobal)
      obtain ⟨before, known, rfl⟩ := Option.map_eq_some_iff.mp found
      have waited := Semaphore.mem_waiters_of_acquire waiting different
      refine ⟨⟨before, known, waited⟩, ?_⟩
      rw [rank, Semaphore.idxOf_acquire waited, globalRank, known]
      exact le_refl _
  | finish other =>
      obtain ⟨⟨_, granted⟩, rfl⟩ := step_finish stepped
      obtain ⟨before, known, rfl⟩ := Option.map_eq_some_iff.mp found
      rw [known] at granted
      refine ⟨⟨before, known, Semaphore.mem_waiters_of_drop waiting⟩, ?_⟩
      have forward := Semaphore.idxOf_drop_of_holder granted waiting
        (consistent.globalQueues.distinct before known)
      rw [rank, globalRank, known]
      exact le_of_eq forward
  | abandon other =>
      obtain ⟨_, rfl⟩ := step_abandon stepped
      obtain ⟨before, known, rfl⟩ := Option.map_eq_some_iff.mp found
      refine ⟨⟨before, known, Semaphore.mem_waiters_of_drop waiting⟩, ?_⟩
      rw [rank, globalRank, known]
      exact Semaphore.idxOf_drop_le waiting (fun same => notAbandoned (same ▸ rfl))
        (consistent.globalQueues.distinct before known)

theorem globalRank_execute (consistent : s.Consistent rpcTaskLabel limits)
    {actions : List (PermitAction Call)} (atGlobal : call ∈ s.atGlobal)
    (notFinished : .finish call ∉ actions) (notAbandoned : .abandon call ∉ actions)
    (executed : execute (Permits.step rpcTaskLabel) s actions = some s') :
    s'.Consistent rpcTaskLabel limits ∧ call ∈ s'.atGlobal ∧ (s'.WaitsGlobal call →
      s.WaitsGlobal call ∧
        s'.globalRank call + actions.countP (·.isFinish) ≤ s.globalRank call) := by
  induction actions generalizing s with
  | nil =>
      cases executed
      exact ⟨consistent, atGlobal, fun waits => ⟨waits, by simp⟩⟩
  | cons a rest inductionHypothesis =>
      rw [execute] at executed
      obtain ⟨notNow, notLater⟩ := not_or.mp (mt List.mem_cons.mpr notFinished)
      obtain ⟨keptNow, keptLater⟩ := not_or.mp (mt List.mem_cons.mpr notAbandoned)
      split at executed
      · cases executed
      · next middle stepped =>
          obtain ⟨kept, still, later⟩ := inductionHypothesis (consistent.step stepped)
            (mem_atGlobal_step atGlobal (Ne.symm notNow) (Ne.symm keptNow) stepped)
            notLater keptLater executed
          refine ⟨kept, still, fun waits => ?_⟩
          obtain ⟨waited, forward⟩ := later waits
          obtain ⟨first, step⟩ :=
            globalRank_step consistent atGlobal (Ne.symm keptNow) stepped waited
          refine ⟨first, ?_⟩
          rw [← List.singleton_append, List.countP_append]
          omega

/-- One permit, and three calls for it. -/
def single : RpcLimits := ⟨some 1, fun _ => none⟩

def inLine : Permits ℕ :=
  (execute (Permits.step finalityCalls) (configured single)
    [.request 0, .request 1, .request 2, .proceed 2, .proceed 0, .proceed 1]).get
      (by decide +kernel)

end Permits

end ProtocolExplorer.Rpc
