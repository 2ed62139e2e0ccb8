import ProtocolExplorer.Staker.StaleRows

/-!
# What a replay computes

The replay of a delegator is a loop over its events with a running balance, a current delegate
and a map from blocks to rows.  What it leaves behind can be read off the events: those that
count are the delegator's claims, and all its events from the one that registers it on.

* `replayStep_of_counted`, `replayStep_of_skipped` — what one event does;
* `replays_snoc` — the invariant: the variables of the loop are those read off the events so far;
* `replayDelegator_spec` — **rows, final balance, registry and skipped events of every replay**.
-/

set_option autoImplicit false

namespace ProtocolExplorer.Staker

open ProtocolExplorer.Lib
open ProtocolExplorer.Store

/-! ## Reading the events -/

section Reading

variable (delegator : Address) (events : List RawEvent)

/-- A stake event of the delegator. -/
def isOwn (e : RawEvent) : Bool :=
  isStakeEvent e.eventName && decide (delegator ∈ delegatorsOf e)

def isClaim (e : RawEvent) : Bool := decide (e.eventName = .EarningsClaimed)

/-- The delegator has sent a Bond or received a TransferBond. -/
def isRegistered : Bool := events.any fun e => registers delegator e.toPreparedRow

/-- The events before the one that registers the delegator. -/
def beforeRegistration : List RawEvent :=
  events.takeWhile fun e => !registers delegator e.toPreparedRow

/-- That event and the later ones. -/
def fromRegistration : List RawEvent :=
  events.dropWhile fun e => !registers delegator e.toPreparedRow

/-- The counted events: claims before the registration, and all events from it on. -/
def countedEvents : List RawEvent :=
  ((beforeRegistration delegator events).filter fun e => isOwn delegator e && isClaim e) ++
    (fromRegistration delegator events).filter (isOwn delegator)

/-- The events before the registration that are not claims. -/
def unregisteredEvents : List RawEvent :=
  (beforeRegistration delegator events).filter fun e => isOwn delegator e && !isClaim e

/-- What an event adds to the balance. -/
def signedAmount (e : RawEvent) : Numeric :=
  match e.eventName with
  | .Bond | .Rebond => e.amountNormalized.getD 0
  | .Unbond => -e.amountNormalized.getD 0
  | .EarningsClaimed => earningsRewardsLpt e
  | _ => 0

/-- Bonded and rebonded amounts and claimed rewards, less the unbonded amounts. -/
def balanceOf : Numeric := ((countedEvents delegator events).map signedAmount).sum

/-- The delegate that an event names. -/
def namedDelegate (e : RawEvent) : Option Address :=
  match e.eventName with
  | .Bond | .Rebond | .Unbond | .EarningsClaimed => e.toAddress
  | _ => none

/-- The delegate that the last of the events named. -/
def delegateOf : Option Address := ((countedEvents delegator events).filterMap namedDelegate).getLast?

/-- The state of the delegator once `before` and then `e` have been replayed, as a row. -/
def stateRow (before : List RawEvent) (e : RawEvent) : RowWrite where
  blockNumber := e.blockNumber
  blockTimestamp := e.blockTimestamp
  blockHash := e.blockHash
  delegateAddress := (delegateOf delegator (before ++ [e])).getD zeroAddress
  bondedPrincipal := balanceOf delegator (before ++ [e])
  source := if isRegistered delegator (before ++ [e]) then .flowDerived
    else .earningsClaimedBootstrap
  triggeringEventId := e.id

/-- `e` is the last counted event of its block, and the events before it are `before`. -/
structure LastOfBlock (before : List RawEvent) (e : RawEvent) : Prop where
  split : ∃ after, events = before ++ e :: after
  counted : countedEvents delegator (before ++ [e]) = countedEvents delegator before ++ [e]
  last : ∃ later, countedEvents delegator events = countedEvents delegator (before ++ [e]) ++ later ∧
    ∀ other ∈ later, other.blockNumber ≠ e.blockNumber

/-- What the replay of a delegator outputs. -/
structure ReplaySpec (outcome : ReplayOutcome) : Prop where
  /-- Rows have strictly increasing blocks, -/
  ascending : outcome.rows.Pairwise fun a b => a.blockNumber < b.blockNumber
  /-- one for each block with a counted event, -/
  blocks : ∀ block, (∃ row ∈ outcome.rows, row.blockNumber = block) ↔
    ∃ e ∈ countedEvents delegator events, e.blockNumber = block
  /-- which is the state after the last of these. -/
  states : ∀ row ∈ outcome.rows, ∃ before e, LastOfBlock delegator events before e ∧
    row = stateRow delegator before e
  /-- The final balance is that of the counted events, -/
  balance : (events.foldl (replayStep delegator) ReplayState.start).balance =
    balanceOf delegator events
  /-- and the last row holds it, if the blocks of the events ascend. -/
  final : (events.Pairwise fun a b => a.blockNumber ≤ b.blockNumber) →
    ∀ row ∈ outcome.rows.getLast?, row.bondedPrincipal = balanceOf delegator events
  /-- Events of later blocks add rows and change none. -/
  extends_rows : ∀ later, (∀ e ∈ events, ∀ l ∈ later, e.blockNumber < l.blockNumber) →
    ∃ new, (replayDelegator delegator (events ++ later)).rows = outcome.rows ++ new
  /-- A delegator is registered exactly if it bonded or received a TransferBond, -/
  registry : outcome.registry.isSome = isRegistered delegator events
  /-- and active exactly if the final balance is positive. -/
  active : ∀ registry ∈ outcome.registry,
    registry.isActive = decide (0 < balanceOf delegator events)
  skipped : outcome.skippedUnregistered = (unregisteredEvents delegator events).length

end Reading

/-! ## One more event -/

section Snoc

variable {delegator : Address} {events : List RawEvent} {e : RawEvent}

theorem isRegistered_snoc : isRegistered delegator (events ++ [e]) =
    (isRegistered delegator events || registers delegator e.toPreparedRow) := by
  simp [isRegistered]

/-- Until the registration all events are before it. -/
theorem parts_of_unregistered (unregistered : isRegistered delegator events = false) :
    beforeRegistration delegator (events ++ [e]) =
        beforeRegistration delegator events ++ beforeRegistration delegator [e] ∧
      fromRegistration delegator events = [] ∧
      fromRegistration delegator (events ++ [e]) = fromRegistration delegator [e] := by
  have none : ∀ other ∈ events, (!registers delegator other.toPreparedRow) = true := by
    intro other member
    rw [isRegistered, List.any_eq_false] at unregistered
    simpa using unregistered other member
  have whole := @List.takeWhile_append_of_pos _ _ events [] none
  have nothing := @List.dropWhile_append_of_pos _ _ events [] none
  rw [List.append_nil, List.takeWhile_nil, List.append_nil] at whole
  rw [List.append_nil, List.dropWhile_nil] at nothing
  refine ⟨?_, nothing, List.dropWhile_append_of_pos none⟩
  rw [beforeRegistration, List.takeWhile_append_of_pos none, beforeRegistration, whole]
  rfl

/-- Afterwards no event is. -/
theorem parts_of_registered (registered : isRegistered delegator events = true) :
    beforeRegistration delegator (events ++ [e]) = beforeRegistration delegator events ∧
      fromRegistration delegator (events ++ [e]) = fromRegistration delegator events ++ [e] := by
  induction events with
  | nil => cases registered
  | cons head rest inductionHypothesis =>
      cases first : registers delegator head.toPreparedRow with
      | true => simp [beforeRegistration, fromRegistration, first]
      | false =>
          have later : isRegistered delegator rest = true := by
            simpa [isRegistered, first] using registered
          obtain ⟨before, after⟩ := inductionHypothesis later
          simp only [beforeRegistration, fromRegistration] at before after
          simp [beforeRegistration, fromRegistration, first, before, after]

/-- Does an event count, given whether the delegator is registered with it? -/
def countsAt (delegator : Address) (registered : Bool) (e : RawEvent) : Bool :=
  isOwn delegator e && (isClaim e || registered)

/-- An event that registers is one of the delegator, and not a claim. -/
theorem own_of_registers (registering : registers delegator e.toPreparedRow = true) :
    isOwn delegator e = true ∧ isClaim e = false := by
  have opens : isStakeEvent e.eventName = true ∧ opensRow delegator e = true ∧
      isClaim e = false := by
    cases name : e.eventName <;> simp_all [registers, opensRow, isClaim, isStakeEvent]
  rw [isOwn, opens.1, Bool.true_and, decide_eq_true_eq]
  exact ⟨mem_delegatorsOf_of_opensRow opens.2.1, opens.2.2⟩

theorem countedEvents_snoc : countedEvents delegator (events ++ [e]) =
    countedEvents delegator events ++
      if countsAt delegator (isRegistered delegator (events ++ [e])) e then [e] else [] := by
  rw [countedEvents, isRegistered_snoc]
  cases registered : isRegistered delegator events with
  | true =>
      obtain ⟨before, after⟩ := @parts_of_registered delegator events e registered
      rw [before, after, List.filter_append, ← List.append_assoc, countedEvents, countsAt]
      cases own : isOwn delegator e <;> simp [own]
  | false =>
      obtain ⟨before, nothing, after⟩ := @parts_of_unregistered delegator events e registered
      rw [before, after, List.filter_append, countedEvents, nothing, List.filter_nil,
        List.append_nil, List.append_assoc, Bool.false_or, countsAt]
      refine congrArg _ ?_
      cases registering : registers delegator e.toPreparedRow with
      | true =>
          simp [beforeRegistration, fromRegistration, registering,
            (own_of_registers registering).1]
      | false =>
          cases own : isOwn delegator e <;> cases claim : isClaim e <;>
            simp [beforeRegistration, fromRegistration, registering, own, claim]

/-- The counted events are in the order of the events. -/
theorem countedEvents_sublist : (countedEvents delegator events).Sublist events := by
  have parts : beforeRegistration delegator events ++ fromRegistration delegator events =
      events := List.takeWhile_append_dropWhile
  have sub : (countedEvents delegator events).Sublist
      (beforeRegistration delegator events ++ fromRegistration delegator events) :=
    List.filter_sublist.append List.filter_sublist
  rwa [parts] at sub

theorem unregisteredEvents_snoc : unregisteredEvents delegator (events ++ [e]) =
    unregisteredEvents delegator events ++
      if isOwn delegator e && !isClaim e && !isRegistered delegator (events ++ [e]) then [e]
      else [] := by
  rw [unregisteredEvents, isRegistered_snoc]
  cases registered : isRegistered delegator events with
  | true =>
      rw [(@parts_of_registered delegator events e registered).1, unregisteredEvents]
      simp
  | false =>
      rw [(@parts_of_unregistered delegator events e registered).1, List.filter_append,
        unregisteredEvents]
      refine congrArg _ ?_
      cases registering : registers delegator e.toPreparedRow with
      | true => simp [beforeRegistration, registering]
      | false =>
          cases own : isOwn delegator e <;> cases claim : isClaim e <;>
            simp [beforeRegistration, registering, own, claim]

end Snoc

/-! ## One step of the loop -/

section Step

variable {delegator : Address} {s : ReplayState} {e : RawEvent}

/-- The sender's stake events are its own, a TransferBond is of both sides. -/
theorem isOwn_eq : isOwn delegator e =
    match e.eventName with
    | .Bond | .Unbond | .Rebond | .WithdrawStake | .EarningsClaimed =>
        decide (e.fromAddress = some delegator)
    | .TransferBond =>
        decide (e.fromAddress = some delegator) || decide (e.toAddress = some delegator)
    | _ => false := by
  cases name : e.eventName <;> simp only [isOwn, isStakeEvent, name, Bool.false_and, Bool.true_and]
  case TransferBond =>
    rw [← Bool.decide_or, decide_eq_decide]
    refine ⟨mem_delegatorsOf, fun side => ?_⟩
    by_cases sender : e.fromAddress = some delegator
    · simp [delegatorsOf, name, sender]
    · refine mem_delegatorsOf_of_opensRow ?_
      simp [opensRow, name, side.resolve_left sender]
  all_goals simp [delegatorsOf, name, Option.mem_toList]

/-- The variables of the loop once an event counts, before its row is written. -/
def absorb (delegator : Address) (s : ReplayState) (e : RawEvent) : ReplayState :=
  { s with
    balance := s.balance + signedAmount e
    delegate := (namedDelegate e).or s.delegate
    registered := s.registered || registers delegator e.toPreparedRow
    firstBond := if registers delegator e.toPreparedRow && !s.registered then
        s.firstBond.or (some (e.blockNumber, e.id))
      else s.firstBond }

/-- **A counted event is absorbed and writes the row of its block.** -/
theorem replayStep_of_counted
    (counts : countsAt delegator (s.registered || registers delegator e.toPreparedRow) e = true) :
    replayStep delegator s e = ((absorb delegator s e).writeRow e
      (if s.registered || registers delegator e.toPreparedRow then .flowDerived
        else .earningsClaimedBootstrap)).see e := by
  rw [countsAt, isOwn_eq, Bool.and_eq_true] at counts
  obtain ⟨own, counted⟩ := counts
  cases name : e.eventName <;> simp only [name, Bool.false_eq_true] at own
  case TransferBond =>
    by_cases receiver : e.toAddress = some delegator
    · cases known : s.registered <;>
        simp [replayStep, absorb, registers, signedAmount, namedDelegate, name, receiver, known,
          ReplayState.register, ReplayState.writeRow]
    · have sender : e.fromAddress = some delegator := by simpa [receiver] using own
      have known : s.registered = true := by
        simpa [isClaim, registers, name, receiver] using counted
      simp [replayStep, absorb, registers, signedAmount, namedDelegate, name, sender, receiver,
        known, ReplayState.writeRow]
  all_goals rw [decide_eq_true_eq] at own
  case Bond =>
    cases known : s.registered <;>
      simp [replayStep, absorb, registers, signedAmount, namedDelegate, name, own, known,
        ReplayState.register, ReplayState.credit, ReplayState.follow, ReplayState.writeRow]
  case EarningsClaimed =>
    simp [replayStep, absorb, registers, signedAmount, namedDelegate, name, own,
      ReplayState.credit, ReplayState.follow, ReplayState.writeRow]
  all_goals
    have known : s.registered = true := by simpa [isClaim, registers, name] using counted
    simp [replayStep, absorb, registers, signedAmount, namedDelegate, name, own, known,
      ReplayState.credit, ReplayState.debit, ReplayState.follow, ReplayState.writeRow,
      sub_eq_add_neg]

/-- A skipped event is counted as such. -/
theorem replayStep_of_skipped
    (skips : (isOwn delegator e && !isClaim e &&
      !(s.registered || registers delegator e.toPreparedRow)) = true) :
    replayStep delegator s e = s.skip := by
  simp only [isOwn_eq, Bool.and_eq_true, Bool.not_eq_true', Bool.or_eq_false_iff] at skips
  obtain ⟨⟨own, notClaim⟩, known, notRegistering⟩ := skips
  cases name : e.eventName <;> simp only [name, Bool.false_eq_true] at own
  case Bond => simp_all [registers]
  case TransferBond =>
    have receiver : e.toAddress ≠ some delegator := by simpa [registers, name] using notRegistering
    have sender : e.fromAddress = some delegator := by simpa [receiver] using own
    simp [replayStep, name, sender, receiver, known]
  case EarningsClaimed => simp [isClaim, name] at notClaim
  all_goals
    rw [decide_eq_true_eq] at own
    simp [replayStep, name, own, known]

/-- Any other event leaves all but `last_seen` alone. -/
theorem replayStep_of_foreign (foreign : isOwn delegator e = false) :
    replayStep delegator s e = s ∨ replayStep delegator s e = s.see e := by
  rw [isOwn_eq] at foreign
  cases name : e.eventName <;> simp_all [replayStep]

/-- What a step does to the rows. -/
theorem rows_replayStep : (replayStep delegator s e).rows = s.rows ∨
    ∃ row, row.blockNumber = e.blockNumber ∧ (replayStep delegator s e).rows = insertRow row s.rows := by
  by_cases counts :
      countsAt delegator (s.registered || registers delegator e.toPreparedRow) e = true
  · rw [replayStep_of_counted counts]
    exact Or.inr ⟨_, rfl, rfl⟩
  · left
    cases own : isOwn delegator e with
    | false => rcases @replayStep_of_foreign delegator s e own with same | same <;> rw [same]; rfl
    | true =>
        rw [replayStep_of_skipped (by simpa [countsAt, own] using counts)]
        rfl

end Step

/-! ## Rows by block -/

section Rows

variable {row : RowWrite} {rows : List RowWrite}

theorem insertRow_append (before : ∀ other ∈ rows, other.blockNumber < row.blockNumber)
    (tail : List RowWrite) : insertRow row (rows ++ tail) = rows ++ insertRow row tail := by
  induction rows with
  | nil => rfl
  | cons head rest inductionHypothesis =>
      have below := before head (List.mem_cons_self ..)
      rw [List.cons_append, insertRow, if_neg (not_lt.mpr below.le), if_neg below.ne',
        inductionHypothesis fun other member => before other (List.mem_cons_of_mem _ member),
        List.cons_append]

/-- The rows of the other blocks are kept. -/
theorem mem_insertRow_iff (ascending : rows.Pairwise fun a b => a.blockNumber < b.blockNumber)
    {other : RowWrite} : other ∈ insertRow row rows ↔
      other = row ∨ other ∈ rows ∧ other.blockNumber ≠ row.blockNumber := by
  induction rows with
  | nil => simp [insertRow]
  | cons head rest inductionHypothesis =>
      obtain ⟨least, sorted⟩ := List.pairwise_cons.mp ascending
      unfold insertRow
      split_ifs with below same
      · have later : ∀ other ∈ head :: rest, other.blockNumber ≠ row.blockNumber := by
          intro other member
          rcases List.mem_cons.mp member with rfl | member
          · exact below.ne'
          · exact (below.trans (least other member)).ne'
        rw [List.mem_cons]
        exact or_congr Iff.rfl (and_iff_left_of_imp (later other)).symm
      · have later : ∀ other ∈ rest, other.blockNumber ≠ row.blockNumber := fun other member =>
          same ▸ (least other member).ne'
        rw [List.mem_cons, List.mem_cons, or_and_right]
        refine or_congr Iff.rfl ⟨fun member => Or.inr ⟨member, later other member⟩, ?_⟩
        rintro (⟨rfl, differs⟩ | ⟨member, _⟩)
        · exact absurd same.symm differs
        · exact member
      · rw [List.mem_cons, inductionHypothesis sorted, List.mem_cons]
        constructor
        · rintro (rfl | rfl | ⟨member, differs⟩)
          · exact Or.inr ⟨Or.inl rfl, fun equal => same equal.symm⟩
          · exact Or.inl rfl
          · exact Or.inr ⟨Or.inr member, differs⟩
        · rintro (rfl | ⟨rfl | member, differs⟩)
          · exact Or.inr (Or.inl rfl)
          · exact Or.inl rfl
          · exact Or.inr (Or.inr ⟨member, differs⟩)

theorem ascending_insertRow (ascending : rows.Pairwise fun a b => a.blockNumber < b.blockNumber) :
    (insertRow row rows).Pairwise fun a b => a.blockNumber < b.blockNumber := by
  induction rows with
  | nil => exact List.pairwise_singleton ..
  | cons head rest inductionHypothesis =>
      obtain ⟨least, sorted⟩ := List.pairwise_cons.mp ascending
      unfold insertRow
      split_ifs with below same
      · refine List.pairwise_cons.mpr ⟨fun other member => ?_, ascending⟩
        rcases List.mem_cons.mp member with rfl | member
        · exact below
        · exact below.trans (least other member)
      · exact List.pairwise_cons.mpr ⟨fun other member => same ▸ least other member, sorted⟩
      · refine List.pairwise_cons.mpr ⟨fun other member => ?_, inductionHypothesis sorted⟩
        rcases mem_insertRow member with rfl | member
        · exact lt_of_le_of_ne (not_lt.mp below) (fun equal => same equal.symm)
        · exact least other member

/-- Later events leave the rows of earlier blocks alone. -/
theorem rows_foldl_of_later {delegator : Address} {later : List RawEvent} {s : ReplayState}
    {base tail : List RowWrite} (rows : s.rows = base ++ tail)
    (after : ∀ row ∈ base, ∀ e ∈ later, row.blockNumber < e.blockNumber) :
    ∃ new, (later.foldl (replayStep delegator) s).rows = base ++ new := by
  induction later generalizing s tail with
  | nil => exact ⟨tail, rows⟩
  | cons e rest inductionHypothesis =>
      have others : ∀ row ∈ base, ∀ e ∈ rest, row.blockNumber < e.blockNumber :=
        fun row member e listed => after row member e (List.mem_cons_of_mem _ listed)
      rw [List.foldl_cons]
      rcases @rows_replayStep delegator s e with same | ⟨row, own, written⟩
      · exact inductionHypothesis (same.trans rows) others
      · rw [rows, insertRow_append fun other member =>
          own ▸ after other member e (List.mem_cons_self ..)] at written
        exact inductionHypothesis written others

end Rows

/-! ## The loop -/

section Loop

variable {delegator : Address} {events : List RawEvent} {s : ReplayState} {e : RawEvent}

/-- The variables of the loop after some events. -/
structure Replays (delegator : Address) (events : List RawEvent) (s : ReplayState) : Prop where
  balance : s.balance = balanceOf delegator events
  delegate : s.delegate = delegateOf delegator events
  registered : s.registered = isRegistered delegator events
  firstBond : s.firstBond.isSome = isRegistered delegator events
  lastSeen : isRegistered delegator events = true → s.lastSeen.isSome = true
  skipped : s.skippedUnregistered = (unregisteredEvents delegator events).length
  ascending : s.rows.Pairwise fun a b => a.blockNumber < b.blockNumber
  blocks : ∀ block, (∃ row ∈ s.rows, row.blockNumber = block) ↔
    ∃ e ∈ countedEvents delegator events, e.blockNumber = block
  states : ∀ row ∈ s.rows, ∃ before e, LastOfBlock delegator events before e ∧
    row = stateRow delegator before e

theorem replays_start (delegator : Address) : Replays delegator [] ReplayState.start where
  balance := rfl
  delegate := rfl
  registered := rfl
  firstBond := rfl
  lastSeen registered := by cases registered
  skipped := rfl
  ascending := List.Pairwise.nil
  blocks block := by simp [ReplayState.start, countedEvents, beforeRegistration, fromRegistration]
  states _ member := absurd member List.not_mem_nil

theorem balanceOf_snoc_of_counted
    (counted : countedEvents delegator (events ++ [e]) = countedEvents delegator events ++ [e]) :
    balanceOf delegator (events ++ [e]) = balanceOf delegator events + signedAmount e := by
  rw [balanceOf, counted, List.map_append, List.sum_append, List.map_singleton,
    List.sum_singleton, balanceOf]

theorem delegateOf_snoc_of_counted
    (counted : countedEvents delegator (events ++ [e]) = countedEvents delegator events ++ [e]) :
    delegateOf delegator (events ++ [e]) =
      (namedDelegate e).or (delegateOf delegator events) := by
  rw [delegateOf, counted, List.filterMap_append, List.getLast?_append, delegateOf]
  cases named : namedDelegate e <;> simp [named]

/-- One more event leaves the last events of the other blocks. -/
theorem LastOfBlock.snoc {before : List RawEvent} {last : RawEvent} {more : List RawEvent}
    (isLast : LastOfBlock delegator events before last)
    (grown : countedEvents delegator (events ++ [e]) = countedEvents delegator events ++ more)
    (differ : ∀ other ∈ more, other.blockNumber ≠ last.blockNumber) :
    LastOfBlock delegator (events ++ [e]) before last where
  split := by
    obtain ⟨after, rfl⟩ := isLast.split
    exact ⟨after ++ [e], by simp⟩
  counted := isLast.counted
  last := by
    obtain ⟨later, split, others⟩ := isLast.last
    refine ⟨later ++ more, by rw [grown, split, List.append_assoc], fun other member => ?_⟩
    exact (List.mem_append.mp member).elim (others other) (differ other)

/-- A counted event. -/
theorem replays_snoc_of_counted (replays : Replays delegator events s)
    (counts : countsAt delegator (isRegistered delegator (events ++ [e])) e = true) :
    Replays delegator (events ++ [e]) (replayStep delegator s e) := by
  have counted : countedEvents delegator (events ++ [e]) =
      countedEvents delegator events ++ [e] := by rw [countedEvents_snoc, if_pos counts]
  have registered : (s.registered || registers delegator e.toPreparedRow) =
      isRegistered delegator (events ++ [e]) := by rw [replays.registered, isRegistered_snoc]
  have notSkipped : (isOwn delegator e && !isClaim e &&
      !isRegistered delegator (events ++ [e])) = false := by
    rw [countsAt] at counts
    revert counts
    cases isOwn delegator e <;> cases isClaim e <;>
      cases isRegistered delegator (events ++ [e]) <;> decide
  have balance : s.balance + signedAmount e = balanceOf delegator (events ++ [e]) := by
    rw [replays.balance, balanceOf_snoc_of_counted counted]
  have delegate : (namedDelegate e).or s.delegate = delegateOf delegator (events ++ [e]) := by
    rw [replays.delegate, delegateOf_snoc_of_counted counted]
  have written : (replayStep delegator s e).rows =
      insertRow (stateRow delegator events e) s.rows := by
    rw [replayStep_of_counted (registered.symm ▸ counts), stateRow, ← balance, ← delegate,
      ← registered]
    rfl
  have step := @replayStep_of_counted delegator s e (registered.symm ▸ counts)
  refine
    { balance := ?_, delegate := ?_, registered := ?_, firstBond := ?_, lastSeen := fun _ => ?_,
      skipped := ?_, ascending := ?_, blocks := fun block => ?_, states := fun row member => ?_ }
  · rw [step, ← balance]
    rfl
  · rw [step, ← delegate]
    rfl
  · rw [step, ← registered]
    rfl
  · have first := replays.firstBond
    rw [← replays.registered] at first
    rw [step, ← registered]
    change (absorb delegator s e).firstBond.isSome = _
    unfold absorb
    cases known : s.registered <;> cases registers delegator e.toPreparedRow <;>
      simp_all
  · rw [step]
    rfl
  · rw [step, unregisteredEvents_snoc, notSkipped, if_neg Bool.false_ne_true, List.append_nil]
    exact replays.skipped
  · rw [written]
    exact ascending_insertRow replays.ascending
  · rw [written, counted]
    have inserted : (∃ row ∈ insertRow (stateRow delegator events e) s.rows,
        row.blockNumber = block) ↔ block = e.blockNumber ∨ ∃ row ∈ s.rows,
          row.blockNumber = block := by
      have blocks := @mem_blocks_insertRow (stateRow delegator events e) s.rows block
      rwa [List.mem_map, List.mem_map] at blocks
    rw [inserted, replays.blocks]
    simp only [List.mem_append, List.mem_singleton, or_and_right, exists_or, exists_eq_left]
    exact ⟨fun either => either.symm.imp_right Eq.symm, fun either => either.symm.imp_left Eq.symm⟩
  · rw [written, mem_insertRow_iff replays.ascending] at member
    rcases member with rfl | ⟨old, differs⟩
    · refine ⟨events, e, ⟨⟨[], rfl⟩, counted, [], (List.append_nil _).symm, ?_⟩, rfl⟩
      exact fun _ nothing => absurd nothing List.not_mem_nil
    · obtain ⟨before, last, isLast, rfl⟩ := replays.states row old
      refine ⟨before, last, isLast.snoc counted fun other member => ?_, rfl⟩
      rw [List.mem_singleton.mp member]
      exact differs.symm

/-- An event that does not count. -/
theorem replays_snoc_of_uncounted (replays : Replays delegator events s)
    (counts : countsAt delegator (isRegistered delegator (events ++ [e])) e = false) :
    Replays delegator (events ++ [e]) (replayStep delegator s e) := by
  have counted : countedEvents delegator (events ++ [e]) = countedEvents delegator events := by
    rw [countedEvents_snoc, counts, if_neg Bool.false_ne_true, List.append_nil]
  have registered : isRegistered delegator (events ++ [e]) = isRegistered delegator events := by
    rw [isRegistered_snoc] at counts ⊢
    cases registering : registers delegator e.toPreparedRow with
    | false => rw [Bool.or_false]
    | true => simp [countsAt, own_of_registers registering, registering] at counts
  have step : ∃ lastSeen skipped, replayStep delegator s e =
      { s with lastSeen := lastSeen, skippedUnregistered := skipped } ∧
        (s.lastSeen.isSome = true → lastSeen.isSome = true) ∧
        skipped = (unregisteredEvents delegator (events ++ [e])).length := by
    rw [unregisteredEvents_snoc]
    cases own : isOwn delegator e with
    | false =>
        rw [Bool.false_and, Bool.false_and, if_neg Bool.false_ne_true, List.append_nil]
        rcases @replayStep_of_foreign delegator s e own with same | same
        · exact ⟨_, _, same, id, replays.skipped⟩
        · exact ⟨_, _, same, fun _ => rfl, replays.skipped⟩
    | true =>
        have skips : (isOwn delegator e && !isClaim e &&
            !isRegistered delegator (events ++ [e])) = true := by
          rw [countsAt] at counts
          simpa [own] using counts
        rw [own] at skips
        have known : isRegistered delegator (events ++ [e]) =
            (s.registered || registers delegator e.toPreparedRow) := by
          rw [isRegistered_snoc, replays.registered]
        have skipped := @replayStep_of_skipped delegator s e (by rwa [own, ← known])
        rw [if_pos skips, List.length_append, List.length_singleton, ← replays.skipped]
        exact ⟨_, _, skipped, id, rfl⟩
  obtain ⟨lastSeen, skipped, same, seen, count⟩ := step
  rw [same]
  exact
    { balance := by rw [balanceOf, counted]; exact replays.balance
      delegate := by rw [delegateOf, counted]; exact replays.delegate
      registered := registered ▸ replays.registered
      firstBond := registered ▸ replays.firstBond
      lastSeen := fun isRegistered => seen (replays.lastSeen (registered ▸ isRegistered))
      skipped := count
      ascending := replays.ascending
      blocks := fun block => by rw [counted]; exact replays.blocks block
      states := fun row member => by
        obtain ⟨before, last, isLast, own⟩ := replays.states row member
        have grown : countedEvents delegator (events ++ [e]) =
            countedEvents delegator events ++ [] := by rw [counted, List.append_nil]
        exact ⟨before, last, isLast.snoc grown fun _ nothing => absurd nothing List.not_mem_nil,
          own⟩ }

/-- **The variables of the loop are those read off the events.** -/
theorem replays_run (delegator : Address) (events : List RawEvent) :
    Replays delegator events (events.foldl (replayStep delegator) ReplayState.start) := by
  induction events using List.reverseRecOn with
  | nil => exact replays_start delegator
  | append_singleton rest e inductionHypothesis =>
      rw [List.foldl_append, List.foldl_cons, List.foldl_nil]
      cases counts : countsAt delegator (isRegistered delegator (rest ++ [e])) e with
      | true => exact replays_snoc_of_counted inductionHypothesis counts
      | false => exact replays_snoc_of_uncounted inductionHypothesis counts

/-- The last row holds the final balance. -/
theorem Replays.final (replays : Replays delegator events s)
    (ordered : events.Pairwise fun a b => a.blockNumber ≤ b.blockNumber) {row : RowWrite}
    (last : row ∈ s.rows.getLast?) : row.bondedPrincipal = balanceOf delegator events := by
  obtain ⟨others, rows⟩ := List.getLast?_eq_some_iff.mp last
  have highest : ∀ other ∈ s.rows, other.blockNumber ≤ row.blockNumber := by
    have ascending := replays.ascending
    rw [rows, List.pairwise_append] at ascending
    intro other member
    rw [rows, List.mem_append, List.mem_singleton] at member
    rcases member with earlier | rfl
    · exact (ascending.2.2 other earlier row (List.mem_singleton_self _)).le
    · exact le_refl _
  obtain ⟨before, e, isLast, rfl⟩ := replays.states row (List.mem_of_getLast? last)
  obtain ⟨later, split, differ⟩ := isLast.last
  have sorted := ordered.sublist (@countedEvents_sublist delegator events)
  -- a counted event after the last one would have a row of a higher block
  have nothing : later = [] := by
    refine List.eq_nil_iff_forall_not_mem.mpr fun other member => differ other member ?_
    rw [split, isLast.counted, List.pairwise_append] at sorted
    have above : e.blockNumber ≤ other.blockNumber :=
      sorted.2.2 e (List.mem_append_right _ (List.mem_singleton_self e)) other member
    obtain ⟨higher, stored, same⟩ := (replays.blocks other.blockNumber).mpr
      ⟨other, by rw [split]; exact List.mem_append_right _ member, rfl⟩
    exact le_antisymm (same ▸ highest higher stored) above
  rw [nothing, List.append_nil] at split
  rw [balanceOf, split]
  rfl

/-- The registry record of a replay. -/
theorem registry_replayDelegator (delegator : Address) (events : List RawEvent) :
    if isRegistered delegator events = true then
      ∃ registry, (replayDelegator delegator events).registry = some registry ∧
        registry.isActive = decide (0 < balanceOf delegator events)
    else (replayDelegator delegator events).registry = none := by
  have replays := replays_run delegator events
  unfold replayDelegator
  generalize events.foldl (replayStep delegator) ReplayState.start = s at replays
  split_ifs with registered
  · obtain ⟨firstBond, bonded⟩ := Option.isSome_iff_exists.mp (replays.firstBond.trans registered)
    obtain ⟨lastSeen, seen⟩ := Option.isSome_iff_exists.mp (replays.lastSeen registered)
    simp only [replays.registered, registered, bonded, seen, replays.balance]
    exact ⟨_, rfl, rfl⟩
  · simp only [replays.registered, Bool.eq_false_iff.mpr registered]

/-- **Every replay outputs what its events say.** -/
theorem replayDelegator_spec (delegator : Address) (events : List RawEvent) :
    ReplaySpec delegator events (replayDelegator delegator events) := by
  have replays := replays_run delegator events
  have registry := registry_replayDelegator delegator events
  refine
    { ascending := replays.ascending, blocks := replays.blocks, states := replays.states,
      balance := replays.balance, final := fun ordered row last => replays.final ordered last,
      extends_rows := fun later after => ?_, registry := ?_, active := fun record member => ?_,
      skipped := replays.skipped }
  · unfold replayDelegator
    rw [List.foldl_append]
    refine rows_foldl_of_later (List.append_nil _).symm fun row member l listed => ?_
    obtain ⟨e, counted, own⟩ := (replays.blocks row.blockNumber).mp ⟨row, member, rfl⟩
    exact own ▸ after e (countedEvents_sublist.subset counted) l listed
  · split_ifs at registry with registered
    · obtain ⟨record, present, _⟩ := registry
      rw [present, registered]
      rfl
    · rw [registry, Bool.eq_false_iff.mpr registered]
      rfl
  · split_ifs at registry with registered
    · obtain ⟨own, present, active⟩ := registry
      cases present.symm.trans member
      exact active
    · cases registry.symm.trans member

end Loop

end ProtocolExplorer.Staker
