import Mathlib

/-!
# Walking a range in adaptive chunks

A walk covers a range of numbers chunk by chunk.  A chunk that succeeds moves the walk past
its end and doubles the batch size; one that fails transiently is tried again from the same
start with half the batch, until the retries are used up; any other failure ends the walk.

* `walk_ne_running` — every walk ends;
* `contiguous_walk`, `covers_walk` — the chunks done are contiguous from the start, and a walk
  that succeeds has covered the range;
* `attempts_walk`, `tries_walk_le` — batch sizes stay within their bounds, and a start is
  tried a bounded number of times;
* `walk_invariant` — what every chunk preserves, a walk preserves.
-/

set_option autoImplicit false

namespace ProtocolExplorer.Lib

universe u

/-- Batch sizes and the retry budget. -/
structure ChunkPolicy where
  defaultBatch : ℕ
  minBatch : ℕ
  maxBatch : ℕ
  maxRetries : ℕ
  minBatch_pos : 0 < minBatch
  minBatch_le : minBatch ≤ defaultBatch
  le_maxBatch : defaultBatch ≤ maxBatch

inductive ChunkOutcome where
  | done
  | transient
  | fatal
  deriving DecidableEq

/-- A chunk that was tried, with the batch size of that moment. -/
structure ChunkAttempt where
  first : ℕ
  last : ℕ
  batch : ℕ
  outcome : ChunkOutcome
  deriving DecidableEq

inductive WalkResult where
  | ok
  | error
  | running
  deriving DecidableEq

/-- Where a walk stands. -/
structure WalkState where
  next : ℕ
  batch : ℕ
  retries : ℕ

/-- The chunks tried, the state they left, the result and where the walk stands. -/
structure Walk (σ : Type u) where
  attempts : List ChunkAttempt
  state : σ
  result : WalkResult
  stand : WalkState

variable {σ : Type u} (policy : ChunkPolicy)

/-- A walk that tries a chunk first. -/
def Walk.cons (attempt : ChunkAttempt) (w : Walk σ) : Walk σ :=
  { w with attempts := attempt :: w.attempts }

namespace ChunkPolicy

/-- The state after a chunk; `none` when the walk gives up. -/
def afterChunk (s : WalkState) (last : ℕ) : ChunkOutcome → Option WalkState
  | .done =>
      some ⟨last + 1, if s.batch < policy.maxBatch then min (s.batch * 2) policy.maxBatch
        else s.batch, 0⟩
  | .transient =>
      if policy.maxRetries ≤ s.retries then none
      else if policy.minBatch < s.batch then
        some ⟨s.next, max (s.batch / 2) policy.minBatch, s.retries + 1⟩
      else if policy.maxRetries ≤ s.retries + 1 then none
      else some ⟨s.next, s.batch, s.retries + 1⟩
  | .fatal => none

/-- The loop, for at most `fuel` chunks. -/
def walk (runChunk : σ → ℕ → ℕ → σ × ChunkOutcome) (bound : ℕ) : ℕ → WalkState → σ → Walk σ
  | 0, s, state => ⟨[], state, .running, s⟩
  | fuel + 1, s, state =>
      if bound < s.next then ⟨[], state, .ok, s⟩
      else
        let last := min (s.next + s.batch - 1) bound
        let after := runChunk state s.next last
        let attempt := ⟨s.next, last, s.batch, after.2⟩
        match policy.afterChunk s last after.2 with
        | none => ⟨[attempt], after.1, .error, s⟩
        | some s' => (walk runChunk bound fuel s' after.1).cons attempt

/-- Enough fuel for a range. -/
def fuelFor (start bound : ℕ) : ℕ := (bound + 1 - start) * (policy.maxRetries + 1) + 1

/-- Walk a range from its start. -/
def walkRange (runChunk : σ → ℕ → ℕ → σ × ChunkOutcome) (start bound : ℕ) (state : σ) : Walk σ :=
  policy.walk runChunk bound (policy.fuelFor start bound) ⟨start, policy.defaultBatch, 0⟩ state

/-- What holds of every state of a walk. -/
structure Within (s : WalkState) : Prop where
  min_le : policy.minBatch ≤ s.batch
  le_max : s.batch ≤ policy.maxBatch
  retries : s.retries ≤ policy.maxRetries

end ChunkPolicy

/-- The chunks done, in order. -/
def Walk.committed (w : Walk σ) : List (ℕ × ℕ) :=
  (w.attempts.filter fun a => decide (a.outcome = .done)).map fun a => (a.first, a.last)

/-- How often a start was tried. -/
def Walk.tries (w : Walk σ) (n : ℕ) : ℕ := w.attempts.countP fun a => decide (a.first = n)

section Cons

variable {attempt : ChunkAttempt} {w : Walk σ}

theorem Walk.committed_cons_of_eq (succeeded : attempt.outcome = .done) :
    (w.cons attempt).committed = (attempt.first, attempt.last) :: w.committed := by
  simp [committed, cons, succeeded]

theorem Walk.committed_cons_of_ne (failed : attempt.outcome ≠ .done) :
    (w.cons attempt).committed = w.committed := by
  simp [committed, cons, failed]

theorem Walk.tries_cons (n : ℕ) :
    (w.cons attempt).tries n = (if attempt.first = n then 1 else 0) + w.tries n := by
  simp only [tries, cons, List.countP_cons, decide_eq_true_eq]
  exact Nat.add_comm _ _

theorem Walk.tries_eq_zero {w : Walk σ} {n : ℕ} (others : ∀ a ∈ w.attempts, a.first ≠ n) :
    w.tries n = 0 := by
  simpa [tries, List.countP_eq_zero] using others

end Cons

/-- Nonempty chunks, each starting right after the one before it. -/
def Contiguous : ℕ → List (ℕ × ℕ) → Prop
  | _, [] => True
  | start, chunk :: rest => chunk.1 = start ∧ chunk.1 ≤ chunk.2 ∧ Contiguous (chunk.2 + 1) rest

/-- Where contiguous chunks end. -/
def frontier : ℕ → List (ℕ × ℕ) → ℕ
  | start, [] => start
  | _, chunk :: rest => frontier (chunk.2 + 1) rest

theorem frontier_append (start : ℕ) (chunks : List (ℕ × ℕ)) (chunk : ℕ × ℕ) :
    frontier start (chunks ++ [chunk]) = chunk.2 + 1 := by
  induction chunks generalizing start with
  | nil => rfl
  | cons head rest inductionHypothesis => exact inductionHypothesis _

theorem Contiguous.le_first {start : ℕ} {chunks : List (ℕ × ℕ)}
    (contiguous : Contiguous start chunks) : ∀ chunk ∈ chunks, start ≤ chunk.1 := by
  induction chunks generalizing start with
  | nil => exact fun _ member => absurd member List.not_mem_nil
  | cons head rest inductionHypothesis =>
      obtain ⟨first, nonempty, later⟩ := contiguous
      intro chunk member
      rcases List.mem_cons.mp member with rfl | tail
      · exact first.ge
      · have after := inductionHypothesis later chunk tail
        omega

theorem Contiguous.first_le_last {start : ℕ} {chunks : List (ℕ × ℕ)}
    (contiguous : Contiguous start chunks) : ∀ chunk ∈ chunks, chunk.1 ≤ chunk.2 := by
  induction chunks generalizing start with
  | nil => exact fun _ member => absurd member List.not_mem_nil
  | cons head rest inductionHypothesis =>
      obtain ⟨_, nonempty, later⟩ := contiguous
      intro chunk member
      rcases List.mem_cons.mp member with rfl | tail
      · exact nonempty
      · exact inductionHypothesis later chunk tail

/-- Contiguous chunks are disjoint and ascending. -/
theorem Contiguous.pairwise {start : ℕ} {chunks : List (ℕ × ℕ)}
    (contiguous : Contiguous start chunks) : chunks.Pairwise fun a b => a.2 < b.1 := by
  induction chunks generalizing start with
  | nil => exact List.Pairwise.nil
  | cons head rest inductionHypothesis =>
      obtain ⟨_, _, later⟩ := contiguous
      exact List.pairwise_cons.mpr
        ⟨fun chunk member => later.le_first chunk member, inductionHypothesis later⟩

/-- Contiguous chunks cover everything up to where they end. -/
theorem Contiguous.covers {start : ℕ} {chunks : List (ℕ × ℕ)}
    (contiguous : Contiguous start chunks) {n : ℕ} (above : start ≤ n)
    (below : n < frontier start chunks) : ∃ chunk ∈ chunks, chunk.1 ≤ n ∧ n ≤ chunk.2 := by
  induction chunks generalizing start with
  | nil => exact absurd below (not_lt.mpr above)
  | cons head rest inductionHypothesis =>
      obtain ⟨first, _, later⟩ := contiguous
      by_cases here : n ≤ head.2
      · exact ⟨head, List.mem_cons_self .., first.le.trans above, here⟩
      · obtain ⟨chunk, member, around⟩ := inductionHypothesis later (by omega) below
        exact ⟨chunk, List.mem_cons_of_mem _ member, around⟩

namespace ChunkPolicy

variable {policy} {s s' : WalkState} {last : ℕ} {outcome : ChunkOutcome}
  {runChunk : σ → ℕ → ℕ → σ × ChunkOutcome} {bound fuel : ℕ} {state : σ}

/-- What a chunk can do to a walk that goes on. -/
theorem afterChunk_cases (continued : policy.afterChunk s last outcome = some s') :
    (outcome = .done ∧ s'.next = last + 1 ∧ s'.retries = 0) ∨
      (outcome = .transient ∧ s'.next = s.next ∧ s'.retries = s.retries + 1) := by
  cases outcome with
  | done =>
      cases continued
      exact Or.inl ⟨rfl, rfl, rfl⟩
  | transient =>
      simp only [afterChunk] at continued
      split at continued
      · cases continued
      · split at continued
        · cases continued
          exact Or.inr ⟨rfl, rfl, rfl⟩
        · split at continued
          · cases continued
          · cases continued
            exact Or.inr ⟨rfl, rfl, rfl⟩
  | fatal => cases continued

/-- The bounds are kept. -/
theorem Within.afterChunk (within : policy.Within s)
    (continued : policy.afterChunk s last outcome = some s') : policy.Within s' := by
  have least := within.min_le
  have most := within.le_max
  have policyMost := policy.minBatch_le.trans policy.le_maxBatch
  cases outcome with
  | done =>
      cases continued
      refine ⟨?_, ?_, Nat.zero_le _⟩
      · show policy.minBatch ≤ if s.batch < policy.maxBatch then
          min (s.batch * 2) policy.maxBatch else s.batch
        split <;> omega
      · show (if s.batch < policy.maxBatch then
          min (s.batch * 2) policy.maxBatch else s.batch) ≤ policy.maxBatch
        split <;> omega
  | transient =>
      simp only [ChunkPolicy.afterChunk] at continued
      split at continued
      · cases continued
      · next left =>
          split at continued
          · cases continued
            refine ⟨le_max_right _ _, ?_, ?_⟩
            · show max (s.batch / 2) policy.minBatch ≤ policy.maxBatch
              omega
            · show s.retries + 1 ≤ policy.maxRetries
              omega
          · split at continued
            · cases continued
            · cases continued
              refine ⟨least, most, ?_⟩
              show s.retries + 1 ≤ policy.maxRetries
              omega
  | fatal => cases continued

theorem within_start (start : ℕ) : policy.Within ⟨start, policy.defaultBatch, 0⟩ :=
  ⟨policy.minBatch_le, policy.le_maxBatch, Nat.zero_le _⟩

/-- A chunk is not empty. -/
theorem Within.le_last (within : policy.Within s) (left : s.next ≤ bound) :
    s.next ≤ min (s.next + s.batch - 1) bound := by
  have least := within.min_le
  have positive := policy.minBatch_pos
  omega

/-! ## Unfolding a walk -/

/-- The chunk at the head of a walk, as it is recorded. -/
def headAttempt (s : WalkState) (bound : ℕ) (outcome : ChunkOutcome) : ChunkAttempt :=
  ⟨s.next, min (s.next + s.batch - 1) bound, s.batch, outcome⟩

theorem walk_past (beyond : bound < s.next) :
    policy.walk runChunk bound (fuel + 1) s state = ⟨[], state, .ok, s⟩ := by
  rw [walk, if_pos beyond]

/-- A walk that has not reached its end tries a chunk, and gives up or goes on. -/
theorem walk_cases (left : s.next ≤ bound) {after : σ}
    (ran : runChunk state s.next (min (s.next + s.batch - 1) bound) = (after, outcome)) :
    (policy.afterChunk s (min (s.next + s.batch - 1) bound) outcome = none ∧
      policy.walk runChunk bound (fuel + 1) s state =
        Walk.cons (headAttempt s bound outcome) ⟨[], after, .error, s⟩) ∨
    ∃ s', policy.afterChunk s (min (s.next + s.batch - 1) bound) outcome = some s' ∧
      policy.walk runChunk bound (fuel + 1) s state =
        (policy.walk runChunk bound fuel s' after).cons (headAttempt s bound outcome) := by
  rw [walk, if_neg (not_lt.mpr left)]
  simp only [ran]
  cases continued : policy.afterChunk s (min (s.next + s.batch - 1) bound) outcome with
  | none => exact Or.inl ⟨rfl, rfl⟩
  | some s' => exact Or.inr ⟨s', rfl, rfl⟩

/-! ## Laws of a walk -/

/-- **Every walk ends.** -/
theorem walk_ne_running (within : policy.Within s) (some_left : 0 < fuel)
    (enough : (bound + 1 - s.next) * (policy.maxRetries + 1) < fuel + s.retries) :
    (policy.walk runChunk bound fuel s state).result ≠ .running := by
  induction fuel generalizing s state with
  | zero => exact absurd some_left (lt_irrefl 0)
  | succ fuel inductionHypothesis =>
      by_cases beyond : bound < s.next
      · rw [walk_past beyond]
        simp
      · have left := not_lt.mp beyond
        have retries := within.retries
        have forward := within.le_last left
        have once : policy.maxRetries + 1 ≤ (bound + 1 - s.next) * (policy.maxRetries + 1) :=
          Nat.le_mul_of_pos_left _ (by omega)
        generalize ran : runChunk state s.next (min (s.next + s.batch - 1) bound) = result
        obtain ⟨after, outcome⟩ := result
        rcases walk_cases left ran with ⟨_, gaveUp⟩ | ⟨s', continued, goesOn⟩
        · rw [gaveUp]
          exact fun ended => WalkResult.noConfusion ended
        · rw [goesOn]
          have next := within.afterChunk continued
          have stillWithin := next.retries
          rcases afterChunk_cases continued with ⟨_, moved, reset⟩ | ⟨_, stayed, counted⟩
          · refine inductionHypothesis next (by omega) ?_
            have fewer : (bound + 1 - s'.next) * (policy.maxRetries + 1) + (policy.maxRetries + 1) ≤
                (bound + 1 - s.next) * (policy.maxRetries + 1) := by
              rw [← Nat.succ_mul]
              exact Nat.mul_le_mul_right _ (by omega)
            omega
          · refine inductionHypothesis next (by omega) ?_
            rw [stayed]
            omega

/-- **The chunks done are contiguous from the start, and end in the range.** -/
theorem contiguous_walk (within : policy.Within s) :
    Contiguous s.next (policy.walk runChunk bound fuel s state).committed ∧
      ∀ chunk ∈ (policy.walk runChunk bound fuel s state).committed, chunk.2 ≤ bound := by
  induction fuel generalizing s state with
  | zero => exact ⟨trivial, fun _ member => absurd member List.not_mem_nil⟩
  | succ fuel inductionHypothesis =>
      by_cases beyond : bound < s.next
      · rw [walk_past beyond]
        exact ⟨trivial, fun _ member => absurd member List.not_mem_nil⟩
      · have left := not_lt.mp beyond
        generalize ran : runChunk state s.next (min (s.next + s.batch - 1) bound) = result
        obtain ⟨after, outcome⟩ := result
        rcases walk_cases left ran with ⟨stopped, gaveUp⟩ | ⟨s', continued, goesOn⟩
        · have failed : outcome ≠ .done := by
            rintro rfl
            cases stopped
          rw [gaveUp, Walk.committed_cons_of_ne failed]
          exact ⟨trivial, fun _ member => absurd member List.not_mem_nil⟩
        · have rest := @inductionHypothesis s' after (within.afterChunk continued)
          rw [goesOn]
          rcases afterChunk_cases continued with ⟨rfl, moved, _⟩ | ⟨rfl, stayed, _⟩
          · rw [Walk.committed_cons_of_eq rfl]
            refine ⟨⟨rfl, within.le_last left, moved ▸ rest.1⟩, fun chunk member => ?_⟩
            rcases List.mem_cons.mp member with rfl | later
            · exact min_le_right _ _
            · exact rest.2 chunk later
          · rw [Walk.committed_cons_of_ne (by simp [headAttempt])]
            exact ⟨stayed ▸ rest.1, rest.2⟩

/-- **A walk that succeeds has covered the range.** -/
theorem covers_walk (succeeds : (policy.walk runChunk bound fuel s state).result = .ok) :
    bound < frontier s.next (policy.walk runChunk bound fuel s state).committed := by
  induction fuel generalizing s state with
  | zero => cases succeeds
  | succ fuel inductionHypothesis =>
      by_cases beyond : bound < s.next
      · rw [walk_past beyond]
        exact beyond
      · have left := not_lt.mp beyond
        generalize ran : runChunk state s.next (min (s.next + s.batch - 1) bound) = result
        obtain ⟨after, outcome⟩ := result
        rcases walk_cases left ran with ⟨_, gaveUp⟩ | ⟨s', continued, goesOn⟩
        · rw [gaveUp] at succeeds
          cases succeeds
        · rw [goesOn] at succeeds ⊢
          have rest := inductionHypothesis succeeds
          rcases afterChunk_cases continued with ⟨rfl, moved, _⟩ | ⟨rfl, stayed, _⟩
          · rw [moved] at rest
            rw [Walk.committed_cons_of_eq rfl]
            exact rest
          · rw [Walk.committed_cons_of_ne (by simp [headAttempt]), ← stayed]
            exact rest

/-- **Every chunk tried lies in the range and has a batch size within the bounds.** -/
theorem attempts_walk (within : policy.Within s) :
    ∀ a ∈ (policy.walk runChunk bound fuel s state).attempts,
      s.next ≤ a.first ∧ a.first ≤ a.last ∧ a.last ≤ bound ∧ a.last < a.first + a.batch ∧
        policy.minBatch ≤ a.batch ∧ a.batch ≤ policy.maxBatch := by
  induction fuel generalizing s state with
  | zero => exact fun _ member => absurd member List.not_mem_nil
  | succ fuel inductionHypothesis =>
      by_cases beyond : bound < s.next
      · rw [walk_past beyond]
        exact fun _ member => absurd member List.not_mem_nil
      · have left := not_lt.mp beyond
        have forward := within.le_last left
        have positive := policy.minBatch_pos
        have head : ∀ outcome, s.next ≤ (headAttempt s bound outcome).first ∧
            (headAttempt s bound outcome).first ≤ (headAttempt s bound outcome).last ∧
            (headAttempt s bound outcome).last ≤ bound ∧
            (headAttempt s bound outcome).last <
              (headAttempt s bound outcome).first + (headAttempt s bound outcome).batch ∧
            policy.minBatch ≤ (headAttempt s bound outcome).batch ∧
            (headAttempt s bound outcome).batch ≤ policy.maxBatch := by
          intro outcome
          have least := within.min_le
          refine ⟨le_refl _, forward, min_le_right _ _, ?_, least, within.le_max⟩
          show min (s.next + s.batch - 1) bound < s.next + s.batch
          omega
        generalize ran : runChunk state s.next (min (s.next + s.batch - 1) bound) = result
        obtain ⟨after, outcome⟩ := result
        rcases walk_cases left ran with ⟨_, gaveUp⟩ | ⟨s', continued, goesOn⟩
        · rw [gaveUp]
          intro a member
          rw [List.mem_singleton.mp member]
          exact head outcome
        · rw [goesOn]
          intro a member
          rcases List.mem_cons.mp member with rfl | later
          · exact head outcome
          · have rest := inductionHypothesis (within.afterChunk continued) a later
            refine ⟨?_, rest.2⟩
            rcases afterChunk_cases continued with ⟨_, moved, _⟩ | ⟨_, stayed, _⟩
            · exact le_trans (by omega) rest.1
            · exact stayed ▸ rest.1

/-- The batch size a walk ends with is within the bounds too. -/
theorem within_walk (within : policy.Within s) :
    policy.Within (policy.walk runChunk bound fuel s state).stand := by
  induction fuel generalizing s state with
  | zero => exact within
  | succ fuel inductionHypothesis =>
      by_cases beyond : bound < s.next
      · rw [walk_past beyond]
        exact within
      · generalize ran : runChunk state s.next (min (s.next + s.batch - 1) bound) = result
        obtain ⟨after, outcome⟩ := result
        rcases walk_cases (not_lt.mp beyond) ran with ⟨_, gaveUp⟩ | ⟨s', continued, goesOn⟩
        · rw [gaveUp]
          exact within
        · rw [goesOn]
          exact inductionHypothesis (within.afterChunk continued)

/-- How often a start may still be tried. -/
theorem tries_walk_le (within : policy.Within s) (n : ℕ) :
    (policy.walk runChunk bound fuel s state).tries n ≤
      if n = s.next then policy.maxRetries + 1 - s.retries else policy.maxRetries + 1 := by
  induction fuel generalizing s state with
  | zero => exact Nat.zero_le _
  | succ fuel inductionHypothesis =>
      by_cases beyond : bound < s.next
      · rw [walk_past beyond]
        exact Nat.zero_le _
      · have left := not_lt.mp beyond
        have forward := within.le_last left
        have retries := within.retries
        generalize ran : runChunk state s.next (min (s.next + s.batch - 1) bound) = result
        obtain ⟨after, outcome⟩ := result
        rcases walk_cases left ran with ⟨_, gaveUp⟩ | ⟨s', continued, goesOn⟩
        · rw [gaveUp, Walk.tries_cons]
          have none : (⟨[], after, .error, s⟩ : Walk σ).tries n = 0 := rfl
          rw [none, headAttempt]
          split_ifs <;> omega
        · rw [goesOn, Walk.tries_cons]
          have next := within.afterChunk continued
          have rest := @inductionHypothesis s' after next
          rcases afterChunk_cases continued with ⟨_, moved, reset⟩ | ⟨_, stayed, counted⟩
          · by_cases here : n = s.next
            · have gone : (policy.walk runChunk bound fuel s' after).tries n = 0 :=
                Walk.tries_eq_zero fun a member =>
                  ne_of_gt (lt_of_lt_of_le (by omega) (attempts_walk next a member).1)
              rw [gone, headAttempt, if_pos here.symm, if_pos here]
              omega
            · rw [headAttempt, if_neg (Ne.symm here), if_neg here, zero_add]
              refine rest.trans ?_
              split_ifs <;> omega
          · rw [stayed, counted] at rest
            have nextRetries := next.retries
            by_cases here : n = s.next
            · rw [headAttempt, if_pos here.symm, if_pos here]
              rw [if_pos here] at rest
              omega
            · rw [headAttempt, if_neg (Ne.symm here), if_neg here, zero_add]
              rw [if_neg here] at rest
              exact rest

/-- **What a chunk preserves, a walk preserves**, with the chunks done so far. -/
theorem walk_invariant {origin : ℕ} {kept : List (ℕ × ℕ) → σ → Prop}
    (afterDone : ∀ chunks state first last, kept chunks state → first = frontier origin chunks →
      first ≤ last → last ≤ bound → (runChunk state first last).2 = .done →
        kept (chunks ++ [(first, last)]) (runChunk state first last).1)
    (afterFailure : ∀ chunks state first last, kept chunks state →
      (runChunk state first last).2 ≠ .done → kept chunks (runChunk state first last).1)
    {chunks : List (ℕ × ℕ)} (within : policy.Within s) (placed : s.next = frontier origin chunks)
    (holds : kept chunks state) :
    kept (chunks ++ (policy.walk runChunk bound fuel s state).committed)
      (policy.walk runChunk bound fuel s state).state := by
  induction fuel generalizing s state chunks with
  | zero => exact (List.append_nil chunks).symm ▸ holds
  | succ fuel inductionHypothesis =>
      by_cases beyond : bound < s.next
      · rw [walk_past beyond]
        exact (List.append_nil chunks).symm ▸ holds
      · have left := not_lt.mp beyond
        generalize ran : runChunk state s.next (min (s.next + s.batch - 1) bound) = result
        obtain ⟨after, outcome⟩ := result
        have stepDone := afterDone chunks state s.next (min (s.next + s.batch - 1) bound) holds
          placed (within.le_last left) (min_le_right _ _)
        have stepFailed := afterFailure chunks state s.next (min (s.next + s.batch - 1) bound) holds
        rw [ran] at stepDone stepFailed
        rcases walk_cases left ran with ⟨stopped, gaveUp⟩ | ⟨s', continued, goesOn⟩
        · have failed : outcome ≠ .done := by
            rintro rfl
            cases stopped
          rw [gaveUp, Walk.committed_cons_of_ne failed]
          exact (List.append_nil chunks).symm ▸ stepFailed failed
        · rw [goesOn]
          have next := within.afterChunk continued
          rcases afterChunk_cases continued with ⟨rfl, moved, _⟩ | ⟨rfl, stayed, _⟩
          · rw [Walk.committed_cons_of_eq rfl, ← List.singleton_append, ← List.append_assoc]
            refine inductionHypothesis next ?_ (stepDone rfl)
            rw [moved, frontier_append]
            rfl
          · rw [Walk.committed_cons_of_ne (by simp [headAttempt])]
            exact inductionHypothesis next (stayed.trans placed) (stepFailed (by simp))

/-- What every chunk inside the range preserves, a walk preserves. -/
theorem walk_keeps {origin : ℕ} {kept : σ → Prop}
    (chunk : ∀ state first last, kept state → origin ≤ first → first ≤ last → last ≤ bound →
      kept (runChunk state first last).1)
    (within : policy.Within s) (above : origin ≤ s.next) (holds : kept state) :
    kept (policy.walk runChunk bound fuel s state).state := by
  induction fuel generalizing s state with
  | zero => exact holds
  | succ fuel inductionHypothesis =>
      by_cases beyond : bound < s.next
      · rw [walk_past beyond]
        exact holds
      · have left := not_lt.mp beyond
        generalize ran : runChunk state s.next (min (s.next + s.batch - 1) bound) = result
        obtain ⟨after, outcome⟩ := result
        have step := chunk state s.next (min (s.next + s.batch - 1) bound) holds above
          (within.le_last left) (min_le_right _ _)
        rw [ran] at step
        rcases walk_cases left ran with ⟨_, gaveUp⟩ | ⟨s', continued, goesOn⟩
        · rw [gaveUp]
          exact step
        · rw [goesOn]
          have next := within.afterChunk continued
          rcases afterChunk_cases continued with ⟨_, moved, _⟩ | ⟨_, stayed, _⟩
          · exact inductionHypothesis next (by rw [moved]; omega) step
          · exact inductionHypothesis next (stayed ▸ above) step

/-! ## From the start of a range -/

section Range

variable (policy) (runChunk) (start bound : ℕ) (state : σ)

theorem walkRange_ends : (policy.walkRange runChunk start bound state).result = .ok ∨
    (policy.walkRange runChunk start bound state).result = .error := by
  have ended : (policy.walkRange runChunk start bound state).result ≠ .running :=
    walk_ne_running (within_start start) (Nat.succ_pos _) (Nat.lt_succ_self _)
  cases result : (policy.walkRange runChunk start bound state).result with
  | ok => exact Or.inl rfl
  | error => exact Or.inr rfl
  | running => exact absurd result ended

theorem contiguous_walkRange : Contiguous start (policy.walkRange runChunk start bound state).committed :=
  (contiguous_walk (within_start start)).1

theorem committed_walkRange_le : ∀ chunk ∈ (policy.walkRange runChunk start bound state).committed,
    chunk.2 ≤ bound :=
  (contiguous_walk (within_start start)).2

theorem attempts_walkRange : ∀ a ∈ (policy.walkRange runChunk start bound state).attempts,
    policy.minBatch ≤ a.batch ∧ a.batch ≤ policy.maxBatch :=
  fun a member => (attempts_walk (within_start start) a member).2.2.2.2

theorem within_walkRange : policy.Within (policy.walkRange runChunk start bound state).stand :=
  within_walk (within_start start)

theorem tries_walkRange_le (n : ℕ) :
    (policy.walkRange runChunk start bound state).tries n ≤ policy.maxRetries + 1 := by
  refine (tries_walk_le (within_start start) n).trans ?_
  split_ifs
  · exact Nat.sub_le _ _
  · exact le_refl _

theorem lt_frontier_walkRange
    (succeeds : (policy.walkRange runChunk start bound state).result = .ok) :
    bound < frontier start (policy.walkRange runChunk start bound state).committed :=
  covers_walk succeeds

/-- A range whose walk succeeds is covered. -/
theorem walkRange_covers
    (succeeds : (policy.walkRange runChunk start bound state).result = .ok) {n : ℕ}
    (above : start ≤ n) (below : n ≤ bound) :
    ∃ chunk ∈ (policy.walkRange runChunk start bound state).committed, chunk.1 ≤ n ∧ n ≤ chunk.2 :=
  (contiguous_walkRange policy runChunk start bound state).covers above
    (lt_of_le_of_lt below (lt_frontier_walkRange policy runChunk start bound state succeeds))

variable {policy runChunk start bound state}

theorem walkRange_invariant {kept : List (ℕ × ℕ) → σ → Prop}
    (afterDone : ∀ chunks state first last, kept chunks state → first = frontier start chunks →
      first ≤ last → last ≤ bound → (runChunk state first last).2 = .done →
        kept (chunks ++ [(first, last)]) (runChunk state first last).1)
    (afterFailure : ∀ chunks state first last, kept chunks state →
      (runChunk state first last).2 ≠ .done → kept chunks (runChunk state first last).1)
    (holds : kept [] state) :
    kept (policy.walkRange runChunk start bound state).committed
      (policy.walkRange runChunk start bound state).state :=
  walk_invariant afterDone afterFailure (within_start start) rfl holds

theorem walkRange_keeps {kept : σ → Prop}
    (chunk : ∀ state first last, kept state → start ≤ first → first ≤ last → last ≤ bound →
      kept (runChunk state first last).1) (holds : kept state) :
    kept (policy.walkRange runChunk start bound state).state :=
  walk_keeps chunk (within_start start) (le_refl start) holds

theorem walkRange_past (beyond : bound < start) :
    (policy.walkRange runChunk start bound state).attempts = [] := by
  rw [walkRange, fuelFor, walk_past beyond]

/-- The first chunk of a range starts it. -/
theorem mem_attempts_walkRange (left : start ≤ bound) :
    ∃ a ∈ (policy.walkRange runChunk start bound state).attempts,
      a.first = start ∧ a.last = min (start + policy.defaultBatch - 1) bound := by
  generalize ran : runChunk state start (min (start + policy.defaultBatch - 1) bound) = result
  obtain ⟨after, outcome⟩ := result
  refine ⟨headAttempt ⟨start, policy.defaultBatch, 0⟩ bound outcome, ?_, rfl, rfl⟩
  rw [walkRange, fuelFor]
  rcases walk_cases (show WalkState.next ⟨start, policy.defaultBatch, 0⟩ ≤ bound from left) ran with ⟨_, gaveUp⟩ | ⟨_, _, goesOn⟩
  · rw [gaveUp]
    exact List.mem_cons_self ..
  · rw [goesOn]
    exact List.mem_cons_self ..

/-- A range that fits in the first chunk is tried once, unless that chunk fails transiently. -/
theorem attempts_walkRange_of_fits (left : start ≤ bound)
    (fits : bound < start + policy.defaultBatch)
    (notTransient : (runChunk state start bound).2 ≠ .transient) :
    ∀ a ∈ (policy.walkRange runChunk start bound state).attempts,
      a.first = start ∧ a.last = bound := by
  have last : min (start + policy.defaultBatch - 1) bound = bound := by omega
  generalize ran : runChunk state start (min (start + policy.defaultBatch - 1) bound) = result
  have own := ran
  rw [last] at own
  obtain ⟨after, outcome⟩ := result
  rw [own] at notTransient
  rw [walkRange, fuelFor]
  rcases walk_cases (show WalkState.next ⟨start, policy.defaultBatch, 0⟩ ≤ bound from left) ran with ⟨_, gaveUp⟩ | ⟨s', continued, goesOn⟩
  · intro a member
    rw [gaveUp] at member
    cases List.mem_singleton.mp member
    exact ⟨rfl, last⟩
  · have ended : bound < s'.next := by
      rcases afterChunk_cases continued with ⟨_, moved, _⟩ | ⟨isTransient, _⟩
      · rw [moved, last]
        exact Nat.lt_succ_self bound
      · exact absurd isTransient notTransient
    intro a member
    have more : (bound + 1 - start) * (policy.maxRetries + 1) =
        (bound + 1 - start) * (policy.maxRetries + 1) - 1 + 1 := by
      have positive : 0 < (bound + 1 - start) * (policy.maxRetries + 1) :=
        Nat.mul_pos (by omega) (Nat.succ_pos _)
      omega
    rw [goesOn, more, walk_past ended] at member
    cases List.mem_singleton.mp member
    exact ⟨rfl, last⟩

end Range

end ChunkPolicy

end ProtocolExplorer.Lib
