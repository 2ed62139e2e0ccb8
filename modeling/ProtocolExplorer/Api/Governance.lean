import ProtocolExplorer.Lib.KeysetPaging
import ProtocolExplorer.Store.RawEvent

/-!
# Governance

The proposal list, the single proposal and the vote history each query the event table on
their own.  The decoder knows two kinds of vote, `VoteCast` and `VoteCastWithParams`; the history
selects both, the two tallies only the first.  The list joins its tallies with its own proposal
rows, so a vote counts as often as its proposal is listed.

* `returnedVotes_eq` — the pages of a proposal's vote history hold all its votes;
* `talliesAgree_iff` — **the three queries agree on a proposal exactly when it has no vote of the
  second kind and, if it has votes, is listed at most once**;
* `paramsVote_not_tallied` — a vote with parameters that no tally counts.
-/

set_option autoImplicit false

namespace ProtocolExplorer.Api.Governance

open ProtocolExplorer.Lib
open ProtocolExplorer.Store

/-- The event table.  Its canonical rows are the logs of one chain, so no two of them share a
block and a log index. -/
structure EventTable where
  rows : List RawEvent
  distinct : ((rows.filter RawEvent.isCanonical).map RawEvent.position).Nodup

/-! ## Shared clauses -/

/-- `event_name = …` on canonical rows. -/
def canonicalNamed (names : List EventName) (e : RawEvent) : Bool :=
  e.isCanonical && decide (e.eventName ∈ names)

/-- `ORDER BY block_number DESC, log_index DESC`. -/
def newestFirst (e : RawEvent) : OrderDual (Lex (ℤ × ℕ)) := OrderDual.toDual e.position

/-! ## Votes -/

structure VoteRow where
  eventId : ℤ
  eventName : EventName
  proposalId : Option String
  voter : Option Address
  support : Option ℕ
  weight : Option ℕ
  reason : Option String
  blockNumber : ℤ
  blockTimestamp : Timestamp
  txHash : TxHash
  deriving DecidableEq

def voteRow (e : RawEvent) : VoteRow where
  eventId := e.id
  eventName := e.eventName
  proposalId := e.decoded.proposalId
  voter := match e.decoded with
    | .vote _ voter _ _ _ => some voter
    | _ => none
  support := e.decoded.support
  weight := e.decoded.weight
  reason := match e.decoded with
    | .vote _ _ _ _ reason => some reason
    | _ => none
  blockNumber := e.blockNumber
  blockTimestamp := e.blockTimestamp
  txHash := e.txHash

structure VotesQuery where
  proposalId : Option String
  voter : Option Address
  cursor : Option (OrderDual (Lex (ℤ × ℕ)))
  limit : Option ℕ

/-- `q.limit.unwrap_or(100).min(1000)`. -/
def pageLimit (limit : Option ℕ) : ℕ := min (limit.getD 100) 1000

/-- The rows `votes` selects, before its cursor. -/
def voteRows (rows : List RawEvent) (proposalId : Option String) (voter : Option Address) :
    List RawEvent :=
  rows.filter fun e => canonicalNamed [.VoteCast, .VoteCastWithParams] e &&
    proposalId.all (fun wanted => decide (e.decoded.proposalId = some wanted)) &&
    voter.all fun wanted => decide (e.fromAddress = some wanted)

/-- `votes`. -/
def votes (rows : List RawEvent) (q : VotesQuery) :
    List VoteRow × Option (OrderDual (Lex (ℤ × ℕ))) :=
  let answer := page newestFirst (pageLimit q.limit) (voteRows rows q.proposalId q.voter) q.cursor
  (answer.data.map voteRow, answer.nextCursor)

/-- A client that follows `next_cursor` to the end. -/
def votePages (rows : List RawEvent) (proposalId : String) (limit : Option ℕ) :
    ℕ → Option (OrderDual (Lex (ℤ × ℕ))) → List VoteRow
  | 0, _ => []
  | pages + 1, cursor =>
      let (data, nextCursor) := votes rows ⟨some proposalId, none, cursor, limit⟩
      data ++ nextCursor.elim [] fun next => votePages rows proposalId limit pages (some next)

/-- The votes the endpoint returns for a proposal. -/
def returnedVotes (rows : List RawEvent) (proposalId : String) (limit : Option ℕ) :
    List VoteRow :=
  votePages rows proposalId limit (rows.length + 1) none

/-! ## Tallies -/

@[ext] structure VoteTally where
  againstWeight : ℕ
  forWeight : ℕ
  abstainWeight : ℕ
  voteCount : ℕ
  deriving DecidableEq

/-- `SUM(CASE WHEN support = … THEN weight ELSE 0 END)`. -/
def supportWeight (support : ℕ) (votes : List VoteRow) : ℕ :=
  (votes.map fun v => if v.support = some support then v.weight.getD 0 else 0).sum

/-- The sums and the count of a tally. -/
def tally (votes : List VoteRow) : VoteTally where
  againstWeight := supportWeight 0 votes
  forWeight := supportWeight 1 votes
  abstainWeight := supportWeight 2 votes
  voteCount := votes.length

/-- The votes a tally selects. -/
def castVotes (rows : List RawEvent) : List RawEvent :=
  rows.filter (canonicalNamed [.VoteCast])

/-- `vote_tally` of one proposal. -/
def voteTally (rows : List RawEvent) (proposalId : String) : VoteTally :=
  tally (((castVotes rows).filter fun v =>
    decide (v.decoded.proposalId = some proposalId)).map voteRow)

/-! ## Proposals -/

/-- A `ProposalCreated` row, joined with a `ProposalExecuted` row of its id. -/
structure JoinedProposal where
  created : RawEvent
  executed : Option RawEvent

/-- `LEFT JOIN`: one row for each execution, or one without. -/
def joinExecutions (rows : List RawEvent) (created : RawEvent) : List JoinedProposal :=
  match rows.filter fun e => canonicalNamed [.ProposalExecuted] e &&
      decide (e.decoded.proposalId = created.decoded.proposalId) with
  | [] => [⟨created, none⟩]
  | executions => executions.map fun executed => ⟨created, some executed⟩

inductive StatusFilter where
  | executed
  | notExecuted
  | active
  | all
  deriving DecidableEq, Repr

/-- `parse_status_filter`. -/
def parseStatusFilter (status : Option String) : Except String StatusFilter :=
  match status.getD "all" with
  | "executed" => .ok .executed
  | "not_executed" => .ok .notExecuted
  | "active" => .ok .active
  | "all" => .ok .all
  | other => .error ("invalid status " ++ other.quote ++
      "; use executed | not_executed | active | all")

def StatusFilter.keeps : StatusFilter → JoinedProposal → Bool
  | all, _ => true
  | executed, p => p.executed.isSome
  | notExecuted, p | active, p => p.executed.isNone

/-- `proposal_rows`, without its limit. -/
def proposalRows (rows : List RawEvent) (status : StatusFilter) : List JoinedProposal :=
  orderBy (fun p => newestFirst p.created)
    (((rows.filter fun e => canonicalNamed [.ProposalCreated] e &&
      decide (e.decoded.proposalId.getD "" ≠ "")).flatMap (joinExecutions rows)).filter
        status.keeps)

structure ProposalRow where
  proposalId : String
  proposer : Option Address
  voteStart : Option ℕ
  voteEnd : Option ℕ
  description : Option String
  createdBlock : ℤ
  createdAt : Timestamp
  createdTxHash : TxHash
  executed : Bool
  executedBlock : Option ℤ
  executedAt : Option Timestamp
  voteTally : VoteTally
  deriving DecidableEq

/-- The columns of a joined row, under the tally given. -/
def proposalRow (p : JoinedProposal) (proposalId : String) (voteTally : VoteTally) :
    ProposalRow where
  proposalId
  proposer := match p.created.decoded with
    | .proposalCreated _ proposer _ _ _ => some proposer
    | _ => none
  voteStart := match p.created.decoded with
    | .proposalCreated _ _ voteStart _ _ => some voteStart
    | _ => none
  voteEnd := match p.created.decoded with
    | .proposalCreated _ _ _ voteEnd _ => some voteEnd
    | _ => none
  description := match p.created.decoded with
    | .proposalCreated _ _ _ _ description => some description
    | _ => none
  createdBlock := p.created.blockNumber
  createdAt := p.created.blockTimestamp
  createdTxHash := p.created.txHash
  executed := p.executed.isSome
  executedBlock := p.executed.map (·.blockNumber)
  executedAt := p.executed.map (·.blockTimestamp)
  voteTally

/-- `vote_tallies`: every vote once for each proposal row of its id, grouped by id; a proposal
without a group has zeros. -/
def listedTally (rows : List RawEvent) (proposals : List JoinedProposal) (proposalId : String) :
    VoteTally :=
  let joined := (castVotes rows).flatMap fun v =>
    (proposals.filter fun p =>
      decide (p.created.decoded.proposalId = v.decoded.proposalId)).map fun _ => v
  tally ((joined.filter fun v => decide (v.decoded.proposalId = some proposalId)).map voteRow)

/-- `list`, after the status has been parsed. -/
def list (rows : List RawEvent) (status : StatusFilter) (limit : Option ℕ) : List ProposalRow :=
  let proposals := (proposalRows rows status).take (pageLimit limit)
  proposals.map fun p =>
    let proposalId := p.created.decoded.proposalId.getD ""
    proposalRow p proposalId (listedTally rows proposals proposalId)

/-- `get_one`. -/
def getOne (rows : List RawEvent) (proposalId : String) : Except String ProposalRow :=
  match (rows.filter fun e => canonicalNamed [.ProposalCreated] e &&
      decide (e.decoded.proposalId = some proposalId)).flatMap (joinExecutions rows) with
  | [] => .error ("proposal " ++ proposalId)
  | p :: _ => .ok (proposalRow p proposalId (voteTally rows proposalId))

/-! ## The vote history -/

section Votes

variable {rows : List RawEvent} {proposalId : String} {limit : Option ℕ}

theorem votePages_eq_follow (pages : ℕ) (cursor : Option (OrderDual (Lex (ℤ × ℕ)))) :
    votePages rows proposalId limit pages cursor =
      (follow newestFirst (pageLimit limit) (voteRows rows (some proposalId) none) pages
        cursor).map voteRow := by
  induction pages generalizing cursor with
  | zero => rfl
  | succ pages inductionHypothesis =>
      rw [votePages, follow, votes]
      simp only [List.map_append]
      congr 1
      cases (page newestFirst (pageLimit limit) (voteRows rows (some proposalId) none)
          cursor).nextCursor with
      | none => rfl
      | some next => exact inductionHypothesis (some next)

/-- The votes of a proposal, of both kinds. -/
def votesFor (rows : List RawEvent) (names : List EventName) (proposalId : String) :
    List RawEvent :=
  rows.filter fun e => canonicalNamed names e &&
    decide (e.decoded.proposalId = some proposalId)

theorem voteRows_proposal :
    voteRows rows (some proposalId) none =
      votesFor rows [.VoteCast, .VoteCastWithParams] proposalId := by
  simp [voteRows, votesFor]

theorem voteTally_eq :
    voteTally rows proposalId = tally ((votesFor rows [.VoteCast] proposalId).map voteRow) := by
  simp only [voteTally, castVotes, votesFor, List.filter_filter, Bool.and_comm]

/-- **The pages hold every vote of the proposal, the newest first.** -/
theorem returnedVotes_eq (table : EventTable) (positive : 0 < pageLimit limit) :
    returnedVotes table.rows proposalId limit =
      (orderBy newestFirst
        (votesFor table.rows [.VoteCast, .VoteCastWithParams] proposalId)).map voteRow := by
  have sub : (voteRows table.rows (some proposalId) none).Sublist
      (table.rows.filter RawEvent.isCanonical) := by
    unfold voteRows
    refine List.monotone_filter_right table.rows ?_
    intro e selected
    simp only [canonicalNamed, Bool.and_eq_true] at selected
    exact selected.1.1.1
  have distinct : ((voteRows table.rows (some proposalId) none).map newestFirst).Nodup := by
    refine List.Nodup.sublist (sub.map newestFirst) ?_
    have apart := table.distinct.map OrderDual.toDual.injective
    rw [List.map_map] at apart
    exact apart
  have enough : (afterCursor newestFirst none (voteRows table.rows (some proposalId) none)).length <
      table.rows.length + 1 := by
    rw [afterCursor_none]
    exact Nat.lt_succ_of_le (List.length_filter_le _ _)
  rw [returnedVotes, votePages_eq_follow, follow_eq positive distinct enough, afterCursor_none,
    voteRows_proposal]

/-- A tally does not depend on the order of the votes. -/
theorem tally_perm {first second : List VoteRow} (same : first.Perm second) :
    tally first = tally second := by
  have sums : ∀ support, supportWeight support first = supportWeight support second :=
    fun support => (same.map _).sum_eq
  exact VoteTally.ext (sums 0) (sums 1) (sums 2) same.length_eq

theorem tally_returnedVotes (table : EventTable) (positive : 0 < pageLimit limit) :
    tally (returnedVotes table.rows proposalId limit) =
      tally ((votesFor table.rows [.VoteCast, .VoteCastWithParams] proposalId).map voteRow) := by
  rw [returnedVotes_eq table positive]
  exact tally_perm ((orderBy_perm newestFirst _).map voteRow)

/-- The votes of both kinds are the tallied ones and the others. -/
theorem length_votesFor :
    (votesFor rows [.VoteCast, .VoteCastWithParams] proposalId).length =
      (votesFor rows [.VoteCast] proposalId).length +
        (votesFor rows [.VoteCastWithParams] proposalId).length := by
  induction rows with
  | nil => rfl
  | cons e rest inductionHypothesis =>
      unfold votesFor canonicalNamed at inductionHypothesis ⊢
      simp only [List.filter_cons]
      by_cases canonical : e.isCanonical = true
      · by_cases own : e.decoded.proposalId = some proposalId
        · cases named : e.eventName <;> simp_all <;> omega
        · simp_all
      · simp_all

end Votes

/-! ## The list -/

section List

variable {rows : List RawEvent} {proposals : List JoinedProposal} {proposalId : String}

/-- The proposal rows of an id. -/
def rowsOf (proposals : List JoinedProposal) (proposalId : String) : List JoinedProposal :=
  proposals.filter fun p => decide (p.created.decoded.proposalId = some proposalId)

/-- The list counts every vote of a proposal as often as the proposal is listed. -/
theorem listedTally_eq :
    listedTally rows proposals proposalId =
      tally (((votesFor rows [.VoteCast] proposalId).flatMap fun v =>
        List.replicate (rowsOf proposals proposalId).length v).map voteRow) := by
  have each : ∀ v : RawEvent,
      ((proposals.filter fun p => decide (p.created.decoded.proposalId = v.decoded.proposalId)).map
        fun _ => v).filter (fun v => decide (v.decoded.proposalId = some proposalId)) =
          if v.decoded.proposalId = some proposalId then
            List.replicate (rowsOf proposals proposalId).length v
          else [] := by
    intro v
    by_cases own : v.decoded.proposalId = some proposalId
    · rw [if_pos own, own, List.map_const']
      exact List.filter_eq_self.mpr fun other copied =>
        decide_eq_true ((List.eq_of_mem_replicate copied) ▸ own)
    · rw [if_neg own, List.filter_eq_nil_iff]
      intro other copied
      obtain ⟨_, _, rfl⟩ := List.mem_map.mp copied
      simpa using own
  unfold listedTally
  simp only
  refine congrArg (fun votes : List RawEvent => tally (votes.map voteRow)) ?_
  simp only [List.filter_flatMap, each]
  unfold votesFor castVotes
  induction rows with
  | nil => rfl
  | cons e rest inductionHypothesis =>
      by_cases named : canonicalNamed [.VoteCast] e = true
      · by_cases own : e.decoded.proposalId = some proposalId
        · simp only [List.filter_cons, named, own, Bool.true_and, decide_true, if_true,
            List.flatMap_cons]
          rw [inductionHypothesis]
        · simp only [List.filter_cons, named, own, Bool.true_and, decide_false, if_true,
            List.flatMap_cons, if_false, List.nil_append, Bool.false_eq_true]
          exact inductionHypothesis
      · simp only [List.filter_cons, named, Bool.false_and, Bool.false_eq_true, if_false]
        exact inductionHypothesis

theorem listedTally_of_once (once : (rowsOf proposals proposalId).length = 1 ∨
      votesFor rows [.VoteCast] proposalId = []) :
    listedTally rows proposals proposalId = voteTally rows proposalId := by
  rw [listedTally_eq, voteTally_eq]
  rcases once with single | novote
  · rw [single]
    simp
  · rw [novote]
    rfl

theorem voteCount_listedTally :
    (listedTally rows proposals proposalId).voteCount =
      (votesFor rows [.VoteCast] proposalId).length * (rowsOf proposals proposalId).length := by
  rw [listedTally_eq]
  simp [tally, List.length_flatMap]

/-- The rows of a list answer. -/
theorem mem_list {status : StatusFilter} {limit : Option ℕ} {row : ProposalRow}
    (listed : row ∈ list rows status limit) (own : row.proposalId = proposalId) :
    ∃ p ∈ rowsOf ((proposalRows rows status).take (pageLimit limit)) proposalId,
      row.voteTally = listedTally rows ((proposalRows rows status).take (pageLimit limit))
        proposalId := by
  obtain ⟨p, member, rfl⟩ := List.mem_map.mp listed
  have named : p.created.decoded.proposalId.getD "" ≠ "" := by
    have selected := mem_orderBy.mp (List.mem_of_mem_take member)
    obtain ⟨e, created, joined⟩ := List.mem_flatMap.mp (List.mem_filter.mp selected).1
    have same : p.created = e := by
      unfold joinExecutions at joined
      split at joined
      · rw [List.mem_singleton.mp joined]
      · obtain ⟨_, _, rfl⟩ := List.mem_map.mp joined
        rfl
    rw [same]
    have selected := (List.mem_filter.mp created).2
    rw [Bool.and_eq_true, decide_eq_true_eq] at selected
    exact selected.2
  have found : p.created.decoded.proposalId = some proposalId := by
    have shown : p.created.decoded.proposalId.getD "" = proposalId := own
    cases stored : p.created.decoded.proposalId with
    | none =>
        rw [stored] at named
        exact absurd rfl named
    | some text =>
        rw [stored] at shown
        exact congrArg some shown
  refine ⟨p, List.mem_filter.mpr ⟨member, decide_eq_true found⟩, ?_⟩
  show listedTally rows _ (p.created.decoded.proposalId.getD "") = _
  rw [found]
  rfl

end List

/-! ## Agreement -/

/-- There is a canonical `ProposalCreated` row of the id. -/
def IsProposal (rows : List RawEvent) (proposalId : String) : Prop :=
  ∃ e ∈ rows, canonicalNamed [.ProposalCreated] e = true ∧
    e.decoded.proposalId = some proposalId

/-- What the list and the single-proposal endpoint show for a proposal is the tally of the votes
that the history returns for it, whatever page size is asked for. -/
def TalliesAgree (table : EventTable) (proposalId : String) : Prop :=
  ∀ shown, getOne table.rows proposalId = .ok shown →
    (∀ status limit, ∀ row ∈ list table.rows status limit, row.proposalId = proposalId →
      row.voteTally = shown.voteTally) ∧
    ∀ limit, 0 < pageLimit limit →
      shown.voteTally = tally (returnedVotes table.rows proposalId limit)

/-- A proposal without votes with parameters; if it has votes, no answer of the list can hold it
twice. -/
structure PlainlyVoted (table : EventTable) (proposalId : String) : Prop where
  noParams : votesFor table.rows [.VoteCastWithParams] proposalId = []
  listedOnce : votesFor table.rows [.VoteCast] proposalId ≠ [] → ∀ status,
    (rowsOf ((proposalRows table.rows status).take 1000) proposalId).length ≤ 1

variable {table : EventTable} {proposalId : String}

theorem joinExecutions_ne_nil (rows : List RawEvent) (created : RawEvent) :
    joinExecutions rows created ≠ [] := by
  unfold joinExecutions
  split
  · exact List.cons_ne_nil _ _
  · next nonempty => simpa using nonempty

/-- Every proposal is shown, with the tally of its `VoteCast` rows. -/
theorem getOne_of_isProposal {rows : List RawEvent} (proposal : IsProposal rows proposalId) :
    ∃ shown, getOne rows proposalId = .ok shown ∧
      shown.voteTally = voteTally rows proposalId := by
  obtain ⟨e, stored, created, named⟩ := proposal
  unfold getOne
  split
  · next nothing =>
      have selected : e ∈ rows.filter fun e => canonicalNamed [.ProposalCreated] e &&
          decide (e.decoded.proposalId = some proposalId) :=
        List.mem_filter.mpr ⟨stored, by simp [created, named]⟩
      exact absurd (List.flatMap_eq_nil_iff.mp nothing e selected) (joinExecutions_ne_nil rows e)
  · exact ⟨_, rfl, rfl⟩

theorem voteTally_of_getOne {rows : List RawEvent} {shown : ProposalRow}
    (found : getOne rows proposalId = .ok shown) :
    shown.voteTally = voteTally rows proposalId ∧ IsProposal rows proposalId := by
  unfold getOne at found
  split at found
  · cases found
  · next p rest joined =>
      cases found
      refine ⟨rfl, ?_⟩
      have first : p ∈ (rows.filter fun e => canonicalNamed [.ProposalCreated] e &&
          decide (e.decoded.proposalId = some proposalId)).flatMap (joinExecutions rows) :=
        joined ▸ List.mem_cons_self ..
      obtain ⟨e, selected, _⟩ := List.mem_flatMap.mp first
      obtain ⟨stored, both⟩ := List.mem_filter.mp selected
      rw [Bool.and_eq_true, decide_eq_true_eq] at both
      exact ⟨e, stored, both⟩

/-- **The list, the single proposal and the vote history agree on a proposal exactly when all its
votes are `VoteCast` and, if there are any, it is listed at most once.** -/
theorem talliesAgree_iff (table : EventTable) (proposalId : String) :
    TalliesAgree table proposalId ↔
      (IsProposal table.rows proposalId → PlainlyVoted table proposalId) := by
  constructor
  · intro agree proposal
    obtain ⟨shown, found, tallied⟩ := getOne_of_isProposal proposal
    obtain ⟨inList, inHistory⟩ := agree shown found
    have counts := congrArg VoteTally.voteCount (inHistory none (by decide))
    rw [tally_returnedVotes table (by decide), tallied, voteTally_eq] at counts
    simp only [tally, List.length_map, length_votesFor] at counts
    refine ⟨List.eq_nil_of_length_eq_zero (by omega), ?_⟩
    intro voted status
    by_contra twice
    have some_ : rowsOf ((proposalRows table.rows status).take 1000) proposalId ≠ [] := by
      intro nothing
      rw [nothing] at twice
      exact twice (Nat.zero_le 1)
    obtain ⟨p, member⟩ := List.exists_mem_of_ne_nil _ some_
    obtain ⟨taken, named⟩ := List.mem_filter.mp member
    have named := of_decide_eq_true named
    have shownTwice := inList status (some 1000) _ (List.mem_map_of_mem taken)
      (show p.created.decoded.proposalId.getD "" = proposalId by rw [named]; rfl)
    have multiplied := congrArg VoteTally.voteCount (shownTwice.trans tallied)
    rw [voteTally_eq] at multiplied
    change (listedTally table.rows ((proposalRows table.rows status).take 1000)
      (p.created.decoded.proposalId.getD "")).voteCount = _ at multiplied
    rw [named, Option.getD_some, voteCount_listedTally] at multiplied
    simp only [tally, List.length_map] at multiplied
    have positive := List.length_pos_of_ne_nil voted
    have once := Nat.eq_of_mul_eq_mul_left positive (multiplied.trans (Nat.mul_one _).symm)
    omega
  · intro plain shown found
    obtain ⟨tallied, proposal⟩ := voteTally_of_getOne found
    obtain ⟨noParams, listedOnce⟩ := plain proposal
    refine ⟨?_, ?_⟩
    · intro status limit row listed own
      obtain ⟨p, inRows, shownTally⟩ := mem_list listed own
      rw [shownTally, tallied]
      refine listedTally_of_once ?_
      by_cases voted : votesFor table.rows [.VoteCast] proposalId = []
      · exact Or.inr voted
      · left
        have prefix_ : (rowsOf ((proposalRows table.rows status).take (pageLimit limit))
            proposalId).Sublist
              (rowsOf ((proposalRows table.rows status).take 1000) proposalId) :=
          (List.take_sublist_take_left (min_le_right _ _)).filter _
        have atMost := prefix_.length_le.trans (listedOnce voted status)
        have atLeast := List.length_pos_of_mem inRows
        omega
    · intro limit positive
      rw [tally_returnedVotes table positive, tallied, voteTally_eq]
      have whole : votesFor table.rows [.VoteCast, .VoteCastWithParams] proposalId =
          votesFor table.rows [.VoteCast] proposalId := by
        refine (List.Sublist.eq_of_length ?_ ?_).symm
        · refine List.monotone_filter_right table.rows ?_
          intro e selected
          simp only [canonicalNamed, Bool.and_eq_true, decide_eq_true_eq,
            List.mem_singleton] at selected ⊢
          simp [selected]
        · rw [length_votesFor, noParams]
          rfl
      rw [whole]

/-! ## A vote with parameters -/

/-- A log of the Governor. -/
def governorRow (blockNumber : ℤ) (eventName : EventName) (decoded : Decoded) : PreparedRow where
  txHash := "0xt"
  logIndex := 0
  blockNumber
  blockHash := "0xb"
  blockTimestamp := 0
  contractName := .Governor
  eventName
  asset := none
  amountNormalized := none
  isValuable := false
  fromAddress := none
  toAddress := none
  decoded
  amount_of_asset := fun absurd => absurd

/-- A proposal, a plain vote for it and a vote against it with parameters. -/
def contestedProposal : EventTable where
  rows :=
    [(governorRow 1 .ProposalCreated (.proposalCreated "7" "0xp" 2 9 "raise the cap")).stored 1,
      (governorRow 3 .VoteCast (.vote "7" "0xa" 1 100 "")).stored 2,
      (governorRow 4 .VoteCastWithParams (.vote "7" "0xc" 0 250 "")).stored 3]
  distinct := by decide +kernel

/-- **Both endpoints show 100 for and nothing against; the history holds 250 against.** -/
theorem paramsVote_not_tallied : ¬ ∀ table proposalId, TalliesAgree table proposalId := by
  intro law
  have proposal : IsProposal contestedProposal.rows "7" :=
    ⟨_, List.mem_cons_self .., by decide +kernel, by decide +kernel⟩
  obtain ⟨shown, found, tallied⟩ := getOne_of_isProposal proposal
  have same := ((law contestedProposal "7") shown found).2 none (by decide)
  rw [tallied] at same
  revert same
  decide +kernel

example : (list contestedProposal.rows .all none).map (fun row => row.voteTally.voteCount) = [1] ∧
    (returnedVotes contestedProposal.rows "7" none).length = 2 := by decide +kernel

end ProtocolExplorer.Api.Governance
