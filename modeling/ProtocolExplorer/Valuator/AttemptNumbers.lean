import ProtocolExplorer.Lib.NumberedLogs
import ProtocolExplorer.Valuator.Bulk

/-!
# Numbers of attempts

Attempts are recorded by bulk flushes and one at a time.  A flush numbers the attempts of a chunk
after the stored ones of their key, ranked by status and detail; a single attempt takes the next
number.  Both do nothing on a conflict.

* `holdsLog_apply` — either appends its attempts to the log of each key;
* `attempt_numbers_exact` — **after any sequence of them the numbers of a key are those from 1 to the
  number of its attempts, and under them are these attempts**.
-/

set_option autoImplicit false

namespace ProtocolExplorer.Valuator

open ProtocolExplorer.Lib
open ProtocolExplorer.Store (Version)

/-- An attempt with the texts of its columns: single inserts have statuses of their own. -/
structure LoggedAttempt where
  eventId : ℤ
  valuationVersion : Version
  asset : String
  resultStatus : String
  errorDetail : Option String
  deriving DecidableEq

namespace LoggedAttempt

def key (row : LoggedAttempt) : ℤ × Version × String :=
  (row.eventId, row.valuationVersion, row.asset)

/-- `ORDER BY result_status, error_detail::text NULLS FIRST`; rows that tie are equal. -/
def rank (row : LoggedAttempt) : Lex (String × WithBot String) :=
  toLex (row.resultStatus, row.errorDetail)

end LoggedAttempt

/-- `valuation_attempts`. -/
abbrev AttemptLog := Table ((ℤ × Version × String) × ℕ) LoggedAttempt

/-- `flush_attempts`: a statement for each chunk. -/
def flushAttempts (rows : List LoggedAttempt) (log : AttemptLog) : AttemptLog :=
  (rows.toChunks flushThreshold).foldl
    (fun log chunk => insertNumbered LoggedAttempt.key (orderBy LoggedAttempt.rank) chunk log) log

/-- `insert_attempt`: `COALESCE(MAX(attempt_number), 0) + 1`. -/
def insertAttempt (row : LoggedAttempt) (log : AttemptLog) : AttemptLog :=
  log.insertNew (row.key, lastNumber log row.key + 1) row

inductive AttemptWrite where
  | flush (rows : List LoggedAttempt)
  | single (row : LoggedAttempt)

namespace AttemptWrite

/-- The attempts a write records. -/
def rows : AttemptWrite → List LoggedAttempt
  | flush rows => rows
  | single row => [row]

def apply (log : AttemptLog) : AttemptWrite → AttemptLog
  | flush rows => flushAttempts rows log
  | single row => insertAttempt row log

end AttemptWrite

/-- The attempts of a key among those recorded. -/
def attemptsOf (key : ℤ × Version × String) (rows : List LoggedAttempt) : List LoggedAttempt :=
  rows.filter fun row => decide (row.key = key)

section

variable {key : ℤ × Version × String} {log : AttemptLog} {stored : List LoggedAttempt}

/-- A single attempt is numbered like a chunk of one. -/
theorem insertAttempt_eq (row : LoggedAttempt) (log : AttemptLog) :
    insertAttempt row log =
      insertNumbered LoggedAttempt.key (orderBy LoggedAttempt.rank) [row] log := by
  simp [insertAttempt, insertNumbered, numberRows, orderBy]

/-- The chunks of a flush append the attempts of a key, in some order. -/
theorem holdsLog_foldl_chunks (chunks : List (List LoggedAttempt))
    (holds : HoldsLog log key stored) : ∃ new, new.Perm (attemptsOf key chunks.flatten) ∧
      HoldsLog (chunks.foldl (fun log chunk =>
        insertNumbered LoggedAttempt.key (orderBy LoggedAttempt.rank) chunk log) log) key
          (stored ++ new) := by
  induction chunks generalizing log stored with
  | nil => exact ⟨[], .nil, by simpa using holds⟩
  | cons chunk rest inductionHypothesis =>
      have first := holdsLog_insertNumbered LoggedAttempt.key chunk
        (orderBy_perm LoggedAttempt.rank) holds
      obtain ⟨new, perm, whole⟩ := inductionHypothesis first
      refine ⟨_ ++ new, ?_, by rw [← List.append_assoc]; exact whole⟩
      rw [attemptsOf, List.flatten_cons, List.filter_append]
      exact (orderBy_perm LoggedAttempt.rank _).append perm

/-- **A write appends its attempts of a key to the log of the key.** -/
theorem holdsLog_apply (write : AttemptWrite) (holds : HoldsLog log key stored) :
    ∃ new, new.Perm (attemptsOf key write.rows) ∧
      HoldsLog (AttemptWrite.apply log write) key (stored ++ new) := by
  cases write with
  | flush rows =>
      obtain ⟨new, perm, whole⟩ := holdsLog_foldl_chunks (rows.toChunks flushThreshold) holds
      rw [flatten_toChunks] at perm
      exact ⟨new, perm, whole⟩
  | single row =>
      obtain ⟨new, perm, whole⟩ := holdsLog_foldl_chunks [[row]] holds
      exact ⟨new, perm, by rw [AttemptWrite.apply, insertAttempt_eq]; exact whole⟩

theorem holdsLog_foldl_apply (writes : List AttemptWrite) (holds : HoldsLog log key stored) :
    ∃ new, new.Perm (attemptsOf key (writes.flatMap AttemptWrite.rows)) ∧
      HoldsLog (writes.foldl AttemptWrite.apply log) key (stored ++ new) := by
  induction writes generalizing log stored with
  | nil => exact ⟨[], .nil, by simpa using holds⟩
  | cons write rest inductionHypothesis =>
      obtain ⟨first, firstPerm, held⟩ := holdsLog_apply write holds
      obtain ⟨new, perm, whole⟩ := inductionHypothesis held
      refine ⟨first ++ new, ?_, by rw [← List.append_assoc]; exact whole⟩
      rw [attemptsOf, List.flatMap_cons, List.filter_append]
      exact firstPerm.append perm

end

/-- **After any sequence of flushes and single inserts the numbers of a key are those from 1 to the
number of its attempts, and each attempt is stored under one of them.** -/
theorem attempt_numbers_exact (writes : List AttemptWrite) (key : ℤ × Version × String) :
    let log := writes.foldl AttemptWrite.apply ∅
    let recorded := attemptsOf key (writes.flatMap AttemptWrite.rows)
    (log.keys.filter fun stored => stored.1 = key).image Prod.snd =
        Finset.Icc 1 recorded.length ∧
      ∃ numbered : List LoggedAttempt, numbered.Perm recorded ∧
        ∀ n, log.lookup (key, n + 1) = numbered[n]? := by
  intro log recorded
  obtain ⟨numbered, perm, holds⟩ := holdsLog_foldl_apply writes (holdsLog_empty key)
  rw [List.nil_append] at holds
  refine ⟨?_, numbered, perm, holds.2⟩
  rw [← perm.length_eq]
  exact numbers_of_holdsLog holds

end ProtocolExplorer.Valuator
