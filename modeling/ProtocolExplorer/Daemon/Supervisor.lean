import Mathlib

/-!
# Supervised tasks

`supervise` keeps one loop of the daemon alive: it spawns it, and when it dies it counts the death
unless the loop's heartbeat has advanced since it was spawned, sets the gauge `task_up`, waits and
spawns it again.  The environment's part are the events: the loop beats or exits, the wait is over,
the process is asked to stop.  `/health` reads the gauges of all tasks.

A `History` keeps what has happened to a task apart from the supervisor's own counter.

* `tracks_run` — the counter is the history's count of deaths, as far as a `u32` goes;
* `backoff_bounds` — the wait is between the bounds of the policy;
* `taskUp_exact` — **the gauge tells the history exactly in the runs in which no task makes
  progress while it is marked down.**
-/

set_option autoImplicit false

namespace ProtocolExplorer.Daemon

/-! ## The policy -/

def u32Max : ℕ := 2 ^ 32 - 1

/-- `Duration::MAX`, in nanoseconds. -/
def durationMax : ℕ := (2 ^ 64 - 1) * 10 ^ 9 + 999999999

/-- A `Duration`, in nanoseconds. -/
structure Duration where
  nanos : ℕ
  fits : nanos ≤ durationMax
  deriving DecidableEq

def Duration.fromSecs (secs : Fin (2 ^ 64)) : Duration :=
  ⟨secs * 10 ^ 9, by unfold durationMax; omega⟩

def Duration.saturatingMul (duration : Duration) (factor : ℕ) : Duration :=
  ⟨min (duration.nanos * factor) durationMax, min_le_right _ _⟩

def Duration.atMost (duration bound : Duration) : Duration :=
  if duration.nanos ≤ bound.nanos then duration else bound

/-- `RestartPolicy`; the budget is a `u32`. -/
structure RestartPolicy where
  baseBackoff : Duration
  maxBackoff : Duration
  maxConsecutive : ℕ
  fits : maxConsecutive ≤ u32Max

/-- `RestartPolicy::default`. -/
def RestartPolicy.default : RestartPolicy :=
  ⟨.fromSecs 1, .fromSecs 60, 10, by decide⟩

/-- The exponential backoff: `base * 2^(n-1)`, capped. -/
def RestartPolicy.backoff (policy : RestartPolicy) (consecutive : ℕ) : Duration :=
  (policy.baseBackoff.saturatingMul (2 ^ min (consecutive - 1) 6)).atMost policy.maxBackoff

/-! ## The supervisor -/

/-- How a spawned loop ends. -/
inductive Outcome where
  | returned
  | errored (message : String)
  | panicked
  | cancelled

/-- The reason a restart is recorded under; a cancelled loop is not restarted. -/
def Outcome.reason : Outcome → Option String
  | .returned => some "error"
  | .errored _ => some "error"
  | .panicked => some "panic"
  | .cancelled => none

/-- The gauges of one task, and the reasons of its restarts. -/
structure TaskGauges where
  heartbeat : ℤ
  taskUp : Bool
  restarts : List String

inductive Phase where
  | running (hbBefore : ℤ)
  | backingOff (delay : Duration)
  | stopped
  deriving DecidableEq

structure Supervisor where
  gauges : TaskGauges
  consecutive : ℕ
  shutdown : Bool
  phase : Phase

inductive Event where
  | beat (now : ℤ)
  | exited (outcome : Outcome)
  | slept
  | shutdown

/-- `run_follow` beats and marks every task up before its supervisor spawns it. -/
def Supervisor.start (now : ℤ) : Supervisor :=
  { gauges := { heartbeat := now, taskUp := true, restarts := [] }, consecutive := 0,
    shutdown := false, phase := .running now }

/-- What follows the death of a loop. -/
def Supervisor.restart (policy : RestartPolicy) (s : Supervisor) (hbBefore : ℤ) (reason : String) :
    Supervisor :=
  let consecutive :=
    if hbBefore < s.gauges.heartbeat then 0 else min (s.consecutive + 1) u32Max
  { s with
    gauges := { s.gauges with
      taskUp := !decide (policy.maxConsecutive < consecutive)
      restarts := s.gauges.restarts ++ [reason] }
    consecutive
    phase := .backingOff (policy.backoff consecutive) }

/-- One event of a supervised task; one that cannot happen changes nothing. -/
def Supervisor.step (policy : RestartPolicy) (s : Supervisor) : Event → Supervisor
  | .beat now =>
      match s.phase with
      | .running _ => { s with gauges := { s.gauges with heartbeat := now } }
      | _ => s
  | .exited outcome =>
      match s.phase with
      | .running hbBefore =>
          -- an exit during or after shutdown is a clean stop
          if s.shutdown then { s with phase := .stopped }
          else match outcome.reason with
            | none => { s with phase := .stopped }
            | some reason => s.restart policy hbBefore reason
      | _ => s
  | .slept =>
      match s.phase with
      | .backingOff _ => { s with phase := .running s.gauges.heartbeat }
      | _ => s
  | .shutdown =>
      match s.phase with
      | .backingOff _ => { s with shutdown := true, phase := .stopped }
      | _ => { s with shutdown := true }

/-! ## Health -/

/-- The gauges of all tasks. -/
abbrev Metrics := String → TaskGauges

/-- `HEALTH_THRESHOLDS`. -/
def healthThresholds : List (String × ℤ) :=
  [("indexer", 300), ("finality", 300), ("reorg", 300), ("valuator", 300), ("staker", 900)]

def healthStartGraceSecs : ℤ := 120

/-- The text for an unhealthy task. -/
def unhealthyText (metrics : Metrics) (now : ℤ) (task : String) (threshold : ℤ) : Option String :=
  let age := now - (metrics task).heartbeat
  let stale := decide (threshold < age)
  let down := !(metrics task).taskUp
  if stale || down then
    some (task ++ "(age=" ++ toString age ++ "s,threshold=" ++ toString threshold ++ "s,up=" ++
      (if down then "0" else "1") ++ ")")
  else none

/-- `health_status`. -/
def healthStatus (metrics : Metrics) (now startedUnix : ℤ) : Except String String :=
  if now - startedUnix ≤ healthStartGraceSecs then .ok "ok (startup grace)"
  else
    match healthThresholds.filterMap fun (task, threshold) =>
        unhealthyText metrics now task threshold with
    | [] => .ok "ok"
    | unhealthy => .error ("unhealthy: " ++ ", ".intercalate unhealthy)

/-- **Past the grace period, the daemon is healthy exactly if every gated task is fresh and
up.** -/
theorem healthStatus_isOk_iff (metrics : Metrics) {now startedUnix : ℤ}
    (past : healthStartGraceSecs < now - startedUnix) :
    (∃ message, healthStatus metrics now startedUnix = .ok message) ↔
      ∀ gated ∈ healthThresholds,
        now - (metrics gated.1).heartbeat ≤ gated.2 ∧ (metrics gated.1).taskUp = true := by
  have none_iff : ∀ gated : String × ℤ, unhealthyText metrics now gated.1 gated.2 = none ↔
      now - (metrics gated.1).heartbeat ≤ gated.2 ∧ (metrics gated.1).taskUp = true := by
    intro gated
    simp [unhealthyText]
  unfold healthStatus
  rw [if_neg (not_le.mpr past)]
  split
  · next healthy =>
      rw [List.filterMap_eq_nil_iff] at healthy
      simp only [Except.ok.injEq, exists_eq', true_iff]
      exact fun gated member => (none_iff gated).mp (healthy gated member)
  · next unhealthy =>
      simp only [reduceCtorEq, exists_false, false_iff]
      intro all
      refine unhealthy (List.filterMap_eq_nil_iff.mpr ?_)
      exact fun gated member => (none_iff gated).mpr (all gated member)

/-! ## What has happened to a task -/

/-- The heartbeat of a task, what it was when the task was last restarted, and how many lives in a
row have ended without advancing it. -/
structure History where
  restartedAt : ℤ
  heartbeat : ℤ
  deathsInARow : ℕ

/-- The heartbeat has advanced since the last restart. -/
def History.Progressed (h : History) : Prop := h.restartedAt < h.heartbeat

instance (h : History) : Decidable h.Progressed := inferInstanceAs (Decidable (_ < _))

def Supervisor.isRunning (s : Supervisor) : Bool :=
  match s.phase with
  | .running _ => true
  | _ => false

/-- Is an exit a death?  Not under shutdown, and not when the loop is cancelled. -/
def Supervisor.dies (s : Supervisor) (outcome : Outcome) : Bool :=
  s.isRunning && !s.shutdown && outcome.reason.isSome

/-- A supervised task with its history. -/
structure Watched where
  supervisor : Supervisor
  history : History

/-- The end of a life. -/
def History.died (h : History) : History :=
  { h with
    deathsInARow := if h.Progressed then 0 else h.deathsInARow + 1
    restartedAt := h.heartbeat }

def History.record (h : History) (s : Supervisor) : Event → History
  | .beat now => if s.isRunning then { h with heartbeat := now } else h
  | .exited outcome => if s.dies outcome then h.died else h
  | .slept => h
  | .shutdown => h

def Watched.start (now : ℤ) : Watched := ⟨.start now, ⟨now, now, 0⟩⟩

def Watched.step (policy : RestartPolicy) (w : Watched) (event : Event) : Watched :=
  ⟨w.supervisor.step policy event, w.history.record w.supervisor event⟩

def Watched.run (policy : RestartPolicy) (now : ℤ) (events : List Event) : Watched :=
  events.foldl (Watched.step policy) (Watched.start now)

/-- What the gauge and the wait are to tell. -/
structure Reported (policy : RestartPolicy) (w : Watched) : Prop where
  /-- A task is down exactly if it has died too often in a row and has not progressed since. -/
  down_iff : w.supervisor.gauges.taskUp = false ↔
    policy.maxConsecutive < w.history.deathsInARow ∧ ¬ w.history.Progressed
  /-- A task that has progressed since its last restart is up. -/
  up_of_progressed : w.history.Progressed → w.supervisor.gauges.taskUp = true
  backoff_bounds : ∀ delay, w.supervisor.phase = .backingOff delay →
    policy.baseBackoff.nanos ≤ delay.nanos ∧ delay.nanos ≤ policy.maxBackoff.nanos

/-- The events after which the gauge is right: a task that has used up its budget does not make
progress again, and no count of deaths leaves the counter. -/
def Allowed (policy : RestartPolicy) (w : Watched) : Event → Prop
  | .beat now => w.supervisor.isRunning = true →
      w.history.deathsInARow ≤ policy.maxConsecutive ∨ now ≤ w.history.restartedAt
  | .exited outcome => w.supervisor.dies outcome = true → ¬ w.history.Progressed →
      w.history.deathsInARow < policy.maxConsecutive ∨ policy.maxConsecutive < u32Max
  | .slept => True
  | .shutdown => True

/-! ## The counter follows the history -/

/-- The supervisor's own state as a function of the history. -/
structure Tracks (policy : RestartPolicy) (w : Watched) : Prop where
  consecutive : w.supervisor.consecutive = min w.history.deathsInARow u32Max
  taskUp : w.supervisor.gauges.taskUp =
    !decide (policy.maxConsecutive < w.supervisor.consecutive)
  heartbeat : w.supervisor.gauges.heartbeat = w.history.heartbeat
  running : ∀ hbBefore, w.supervisor.phase = .running hbBefore → hbBefore = w.history.restartedAt
  backingOff : ∀ delay, w.supervisor.phase = .backingOff delay →
    w.history.heartbeat = w.history.restartedAt ∧ delay = policy.backoff w.supervisor.consecutive

section

variable {policy : RestartPolicy} {w : Watched}

theorem tracks_start (now : ℤ) : Tracks policy (Watched.start now) where
  consecutive := rfl
  taskUp := by simp [Watched.start, Supervisor.start]
  heartbeat := rfl
  running := by
    intro hbBefore running
    cases running
    rfl
  backingOff := by
    intro delay waiting
    cases waiting

/-- An event that neither beats nor kills leaves the gauges, the counter and the history alone. -/
structure Quiet (policy : RestartPolicy) (w : Watched) (event : Event) : Prop where
  allowed : Allowed policy w event
  history : (w.step policy event).history = w.history
  gauges : (w.step policy event).supervisor.gauges = w.supervisor.gauges
  consecutive : (w.step policy event).supervisor.consecutive = w.supervisor.consecutive
  phase : (w.step policy event).supervisor.phase = w.supervisor.phase ∨
    (w.step policy event).supervisor.phase = .stopped ∨
    ∃ delay, w.supervisor.phase = .backingOff delay ∧
      (w.step policy event).supervisor.phase = .running w.supervisor.gauges.heartbeat

/-- **What an event does**: a running task beats, it dies, or the event is quiet. -/
theorem step_cases (policy : RestartPolicy) (w : Watched) (event : Event) :
    (∃ now hbBefore, event = .beat now ∧ w.supervisor.phase = .running hbBefore ∧
      w.step policy event =
        ⟨{ w.supervisor with gauges := { w.supervisor.gauges with heartbeat := now } },
          { w.history with heartbeat := now }⟩) ∨
    (∃ outcome hbBefore reason, event = .exited outcome ∧
      w.supervisor.phase = .running hbBefore ∧ w.supervisor.dies outcome = true ∧
      w.step policy event = ⟨w.supervisor.restart policy hbBefore reason, w.history.died⟩) ∨
    Quiet policy w event := by
  obtain ⟨⟨gauges, consecutive, shutdown, phase⟩, h⟩ := w
  cases event with
  | beat now =>
      cases phase with
      | running hbBefore => exact .inl ⟨now, hbBefore, rfl, rfl, rfl⟩
      | backingOff delay => exact .inr (.inr ⟨nofun, rfl, rfl, rfl, .inl rfl⟩)
      | stopped => exact .inr (.inr ⟨nofun, rfl, rfl, rfl, .inl rfl⟩)
  | exited outcome =>
      cases phase with
      | running hbBefore =>
          cases shutdown with
          | true => exact .inr (.inr ⟨nofun, rfl, rfl, rfl, .inr (.inl rfl)⟩)
          | false =>
              cases outcome with
              | returned => exact .inr (.inl ⟨.returned, hbBefore, _, rfl, rfl, rfl, rfl⟩)
              | errored text => exact .inr (.inl ⟨.errored text, hbBefore, _, rfl, rfl, rfl, rfl⟩)
              | panicked => exact .inr (.inl ⟨.panicked, hbBefore, _, rfl, rfl, rfl, rfl⟩)
              | cancelled => exact .inr (.inr ⟨nofun, rfl, rfl, rfl, .inr (.inl rfl)⟩)
      | backingOff delay => exact .inr (.inr ⟨nofun, rfl, rfl, rfl, .inl rfl⟩)
      | stopped => exact .inr (.inr ⟨nofun, rfl, rfl, rfl, .inl rfl⟩)
  | slept =>
      cases phase with
      | running hbBefore => exact .inr (.inr ⟨trivial, rfl, rfl, rfl, .inl rfl⟩)
      | backingOff delay =>
          exact .inr (.inr ⟨trivial, rfl, rfl, rfl, .inr (.inr ⟨delay, rfl, rfl⟩)⟩)
      | stopped => exact .inr (.inr ⟨trivial, rfl, rfl, rfl, .inl rfl⟩)
  | shutdown =>
      cases phase with
      | running hbBefore => exact .inr (.inr ⟨trivial, rfl, rfl, rfl, .inl rfl⟩)
      | backingOff delay => exact .inr (.inr ⟨trivial, rfl, rfl, rfl, .inr (.inl rfl)⟩)
      | stopped => exact .inr (.inr ⟨trivial, rfl, rfl, rfl, .inl rfl⟩)

theorem tracks_step (tracks : Tracks policy w) (event : Event) :
    Tracks policy (w.step policy event) := by
  rcases step_cases policy w event with
    ⟨now, hbBefore, -, running, stepped⟩ |
    ⟨outcome, hbBefore, reason, -, running, -, stepped⟩ | quiet
  · rw [stepped]
    refine ⟨tracks.consecutive, tracks.taskUp, rfl, tracks.running, ?_⟩
    intro delay waiting
    cases running.symm.trans waiting
  · rw [stepped]
    refine ⟨?_, rfl, tracks.heartbeat, nofun, ?_⟩
    · have advanced : hbBefore < w.supervisor.gauges.heartbeat ↔ w.history.Progressed := by
        rw [tracks.heartbeat, tracks.running hbBefore running, History.Progressed]
      have counted := tracks.consecutive
      simp only [Supervisor.restart, History.died, advanced]
      by_cases progressed : w.history.Progressed
      · simp [progressed]
      · simp only [progressed, if_false]
        omega
    · intro delay waiting
      cases waiting
      exact ⟨rfl, rfl⟩
  · refine ⟨?_, ?_, ?_, ?_, ?_⟩
    · rw [quiet.consecutive, quiet.history, tracks.consecutive]
    · rw [quiet.gauges, quiet.consecutive, tracks.taskUp]
    · rw [quiet.gauges, quiet.history, tracks.heartbeat]
    · intro hbBefore running
      rw [quiet.history]
      rcases quiet.phase with same | stopped | ⟨delay, waited, respawned⟩
      · exact tracks.running hbBefore (same ▸ running)
      · cases stopped.symm.trans running
      · cases respawned.symm.trans running
        exact tracks.heartbeat.trans (tracks.backingOff delay waited).1
    · intro delay waiting
      rw [quiet.history, quiet.consecutive]
      rcases quiet.phase with same | stopped | ⟨before, waited, respawned⟩
      · exact tracks.backingOff delay (same ▸ waiting)
      · cases stopped.symm.trans waiting
      · cases respawned.symm.trans waiting

/-- **The supervisor's counter follows the history of the task.** -/
theorem tracks_run (policy : RestartPolicy) (now : ℤ) (events : List Event) :
    Tracks policy (Watched.run policy now events) := by
  induction events using List.reverseRecOn with
  | nil => exact tracks_start now
  | append_singleton before event inductionHypothesis =>
      rw [Watched.run, List.foldl_append]
      exact tracks_step inductionHypothesis event

/-! ## When the gauge is right -/

/-- **The wait is between the bounds of the policy.** -/
theorem backoff_bounds (ordered : policy.baseBackoff.nanos ≤ policy.maxBackoff.nanos)
    (consecutive : ℕ) :
    policy.baseBackoff.nanos ≤ (policy.backoff consecutive).nanos ∧
      (policy.backoff consecutive).nanos ≤ policy.maxBackoff.nanos := by
  have grows : policy.baseBackoff.nanos ≤
      (policy.baseBackoff.saturatingMul (2 ^ min (consecutive - 1) 6)).nanos :=
    le_min (Nat.le_mul_of_pos_right _ (by positivity)) policy.baseBackoff.fits
  unfold RestartPolicy.backoff Duration.atMost
  split
  · next below => exact ⟨grows, below⟩
  · exact ⟨ordered, le_refl _⟩

/-- What the gauge tells is a matter of the history alone. -/
theorem reported_iff (ordered : policy.baseBackoff.nanos ≤ policy.maxBackoff.nanos)
    (tracks : Tracks policy w) :
    Reported policy w ↔ (policy.maxConsecutive < w.history.deathsInARow →
      (policy.maxConsecutive < u32Max ↔ ¬ w.history.Progressed)) := by
  have down : w.supervisor.gauges.taskUp = false ↔
      policy.maxConsecutive < w.history.deathsInARow ∧ policy.maxConsecutive < u32Max := by
    rw [tracks.taskUp, tracks.consecutive]
    simp
  have up : w.supervisor.gauges.taskUp = true ↔
      ¬ (policy.maxConsecutive < w.history.deathsInARow ∧ policy.maxConsecutive < u32Max) := by
    rw [← down, Bool.not_eq_false]
  constructor
  · intro reported spent
    constructor
    · exact fun room => (reported.down_iff.mp (down.mpr ⟨spent, room⟩)).2
    · exact fun idle => (down.mp (reported.down_iff.mpr ⟨spent, idle⟩)).2
  · intro right
    refine ⟨?_, ?_, ?_⟩
    · rw [down]
      exact and_congr_right right
    · intro progressed
      rw [up]
      exact fun spent => (right spent.1).mp spent.2 progressed
    · intro delay waiting
      rw [(tracks.backingOff delay waiting).2]
      exact backoff_bounds ordered _

/-- The count of deaths has not left the counter. -/
def InBudget (policy : RestartPolicy) (h : History) : Prop :=
  policy.maxConsecutive < h.deathsInARow → policy.maxConsecutive < u32Max

theorem not_progressed_died (h : History) : ¬ h.died.Progressed := lt_irrefl h.heartbeat

/-- A gauge that is right after the event shows that the counter has kept its range. -/
theorem inBudget_step (ordered : policy.baseBackoff.nanos ≤ policy.maxBackoff.nanos)
    (tracks : Tracks policy w) {event : Event} (budget : InBudget policy w.history)
    (reported : Reported policy (w.step policy event)) :
    InBudget policy (w.step policy event).history := by
  have right := (reported_iff ordered (tracks_step tracks event)).mp reported
  rcases step_cases policy w event with
    ⟨now, hbBefore, -, -, stepped⟩ | ⟨outcome, hbBefore, reason, -, -, -, stepped⟩ | quiet
  · rw [stepped]
    exact budget
  · rw [stepped] at right ⊢
    exact fun spent => (right spent).mpr (not_progressed_died _)
  · rw [quiet.history]
    exact budget

/-- **A right gauge stays right exactly at the allowed events.** -/
theorem reported_step_iff (ordered : policy.baseBackoff.nanos ≤ policy.maxBackoff.nanos)
    (tracks : Tracks policy w) (budget : InBudget policy w.history) (reported : Reported policy w)
    (event : Event) :
    Reported policy (w.step policy event) ↔ Allowed policy w event := by
  rw [reported_iff ordered (tracks_step tracks event)]
  have right := (reported_iff ordered tracks).mp reported
  rcases step_cases policy w event with
    ⟨now, hbBefore, rfl, running, stepped⟩ |
    ⟨outcome, hbBefore, reason, rfl, running, dies, stepped⟩ | quiet
  · have runs : w.supervisor.isRunning = true := by
      rw [Supervisor.isRunning, running]
    rw [stepped]
    simp only [Allowed, runs, true_imp_iff, History.Progressed, not_lt]
    constructor
    · intro after
      rcases le_or_gt w.history.deathsInARow policy.maxConsecutive with within | spent
      · exact .inl within
      · exact .inr ((after spent).mp (budget spent))
    · rintro (within | behind) spent
      · omega
      · exact ⟨fun _ => behind, fun _ => budget spent⟩
  · rw [stepped]
    simp only [Allowed, dies, true_imp_iff, not_progressed_died, not_false_eq_true, iff_true]
    by_cases progressed : w.history.Progressed
    · simp [History.died, progressed]
    · simp only [History.died, progressed, if_false, not_false_eq_true, true_imp_iff]
      omega
  · rw [quiet.history]
    exact ⟨fun _ => quiet.allowed, fun _ => right⟩

end

theorem reported_start (policy : RestartPolicy) (now : ℤ) :
    Reported policy (Watched.start now) where
  down_iff := by simp [Watched.start, Supervisor.start]
  up_of_progressed := fun _ => rfl
  backoff_bounds := nofun

theorem run_append_singleton (policy : RestartPolicy) (now : ℤ) (before : List Event)
    (event : Event) : Watched.run policy now (before ++ [event]) =
      (Watched.run policy now before).step policy event := by
  rw [Watched.run, Watched.run, List.foldl_append]
  rfl

/-- While the gauge is right after every event, the counter keeps its range. -/
theorem inBudget_of_reported {policy : RestartPolicy}
    (ordered : policy.baseBackoff.nanos ≤ policy.maxBackoff.nanos) (now : ℤ)
    (events : List Event)
    (reported : ∀ before, before <+: events → Reported policy (Watched.run policy now before)) :
    InBudget policy (Watched.run policy now events).history := by
  induction events using List.reverseRecOn with
  | nil => exact fun spent => absurd spent (Nat.not_lt_zero _)
  | append_singleton earlier event inductionHypothesis =>
      have budget := inductionHypothesis fun before within =>
        reported before (within.trans (List.prefix_append _ _))
      have after := reported _ List.prefix_rfl
      rw [run_append_singleton] at after ⊢
      exact inBudget_step ordered (tracks_run policy now earlier) budget after

/-- **The gauge and the wait are right after every event of a run exactly if no task that has used
up its budget makes progress again** (and no count of deaths leaves the counter). -/
theorem taskUp_exact (policy : RestartPolicy)
    (ordered : policy.baseBackoff.nanos ≤ policy.maxBackoff.nanos) (now : ℤ)
    (events : List Event) :
    (∀ before, before <+: events → Reported policy (Watched.run policy now before)) ↔
      ∀ before event, before ++ [event] <+: events →
        Allowed policy (Watched.run policy now before) event := by
  constructor
  · intro reported before event within
    have earlier := (List.prefix_append before [event]).trans within
    have budget := inBudget_of_reported ordered now before fun shorter shorterWithin =>
      reported shorter (shorterWithin.trans earlier)
    have after := reported _ within
    rw [run_append_singleton] at after
    exact (reported_step_iff ordered (tracks_run policy now before) budget (reported before earlier)
      event).mp after
  · intro allowed before within
    -- right gauges and the range of the counter go along the run together
    have both : ∀ shorter, shorter <+: events → Reported policy (Watched.run policy now shorter) ∧
        InBudget policy (Watched.run policy now shorter).history := by
      intro shorter
      induction shorter using List.reverseRecOn with
      | nil =>
          intro _
          exact ⟨reported_start policy now, fun spent => absurd spent (Nat.not_lt_zero _)⟩
      | append_singleton earlier event inductionHypothesis =>
          intro inside
          obtain ⟨reported, budget⟩ :=
            inductionHypothesis ((List.prefix_append earlier [event]).trans inside)
          have tracks := tracks_run policy now earlier
          have after := (reported_step_iff ordered tracks budget reported event).mpr
            (allowed earlier event inside)
          rw [run_append_singleton]
          exact ⟨after, inBudget_step ordered tracks budget after⟩
    exact (both before within).1

/-- A task that fails eleven times and then works again. -/
def failsThenWorks : List Event :=
  (List.replicate 11 [Event.exited (.errored "boom"), Event.slept]).flatten ++ [.beat 1600]

/-- **A task that recovers stays marked down, and the daemon unhealthy.** -/
theorem recovered_task_down :
    ¬ Reported .default (Watched.run .default 1000 failsThenWorks) ∧
      healthStatus (fun task => if task = "valuator"
          then (Watched.run .default 1000 failsThenWorks).supervisor.gauges
          else { heartbeat := 1600, taskUp := true, restarts := [] }) 1630 1000 =
        .error "unhealthy: valuator(age=30s,threshold=300s,up=0)" := by
  have down : (Watched.run .default 1000 failsThenWorks).supervisor.gauges.taskUp = false := by
    decide
  have progressed : (Watched.run .default 1000 failsThenWorks).history.Progressed := by decide
  refine ⟨?_, by decide⟩
  intro reported
  exact Bool.false_ne_true (down.symm.trans (reported.up_of_progressed progressed))

theorem taskUp_exact_default :
    (RestartPolicy.default.baseBackoff.nanos ≤ RestartPolicy.default.maxBackoff.nanos) ∧
      ((∀ before, before <+: [Event.beat 1012, .exited .panicked, .slept] →
        Reported .default (Watched.run .default 1000 before)) ↔
      ∀ before event, before ++ [event] <+: [Event.beat 1012, .exited .panicked, .slept] →
        Allowed .default (Watched.run .default 1000 before) event) :=
  ⟨by decide, taskUp_exact .default (by decide) 1000 _⟩

end ProtocolExplorer.Daemon
