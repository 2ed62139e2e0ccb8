import ProtocolExplorer.Lib.OrderedBatch
import ProtocolExplorer.Staker.RoundSnapshots

/-!
# Rounds of the API

The start of a round is read from `orch_stake_by_round` in three ways: `/network/stats` takes the
row of the smallest address, `/rounds` the largest block and timestamp, and `/rounds/{id}` a row of
the largest stake.  The events of a round are those from its smallest block to the smallest block
of a later round.

* `windows_disjoint`, `windows_cover` — **the windows partition the blocks, whatever the table
  holds**;
* `startReported_of_agree` — where the rows of a round agree, so do the three routes;
* `roundStarts_coherent` — **in every run from a bootstrap whose rows agree**;
* `bootstrap_disagrees` — two former profiles of one round, as of different blocks.
-/

set_option autoImplicit false

namespace ProtocolExplorer.Api

open ProtocolExplorer.Lib
open ProtocolExplorer.Store
open ProtocolExplorer.Staker
open ProtocolExplorer.Staker.Snapshots

/-! ## The routes -/

section Routes

variable (db : Db) (round : ℤ)

/-- The rounds with rows. -/
def recordedRounds : Finset ℤ := db.orchStakeByRound.keys.image Prod.snd

/-- The addresses with a row of the round. -/
def addressesOf : Finset Address :=
  (db.orchStakeByRound.keys.filter fun key => key.2 = round).image Prod.fst

/-- The rows of the round, `ORDER BY address`. -/
def stakesOf : List OrchStake :=
  (sortKeys (addressesOf db round)).filterMap fun address =>
    db.orchStakeByRound.lookup (address, round)

/-- Where and when a round starts. -/
abbrev ReportedStart := ℤ × Timestamp

def OrchStake.start (row : OrchStake) : ReportedStart := (row.blockNumber, row.blockTimestamp)

/-- `latest_round` of `stats`. -/
def latestRound : Option ℤ := latest (recordedRounds db)

/-- `latest_round_started_block` and `latest_round_started_at` of `stats`. -/
def latestRoundStarted : Option ReportedStart :=
  (latestRound db).bind fun round => (stakesOf db round).head?.map OrchStake.start

/-- `started_block` and `started_at` of `rounds_index`: `MAX(block_number)` and
`MAX(block_timestamp)`. -/
def startedOfIndex : Option ReportedStart :=
  ((stakesOf db round).map fun row => row.blockNumber).max?.bind fun block =>
    ((stakesOf db round).map fun row => row.blockTimestamp).max?.map fun timestamp =>
      (block, timestamp)

/-- `round_started_block` and `round_started_at` of `round_get` may be those of any row of the
largest stake, `ORDER BY total_stake DESC`. -/
def RoundGetStarted (started : ReportedStart) : Prop :=
  ∃ row ∈ stakesOf db round, OrchStake.start row = started ∧
    ∀ other ∈ stakesOf db round, other.totalStake ≤ row.totalStake

/-- `MIN(block_number)` over some rows. -/
def minBlock (rows : List OrchStake) : Option ℤ := (rows.map fun row => row.blockNumber).min?

/-- The rows of later rounds. -/
def laterStakes : List OrchStake :=
  (sortKeys ((recordedRounds db).filter fun later => round < later)).flatMap (stakesOf db)

/-- `resolve_round_range`; a round without rows is not found. -/
def resolveRoundRange : Option (ℤ × Option ℤ) :=
  (minBlock (stakesOf db round)).map fun fromBlock =>
    (fromBlock, (minBlock (laterStakes db round)).map fun block => block - 1)

end Routes

/-- Is a block in a range? -/
def InRange (range : ℤ × Option ℤ) (block : ℤ) : Prop :=
  range.1 ≤ block ∧ ∀ toBlock ∈ range.2, block ≤ toBlock

/-! ## Windows -/

section Windows

variable {db : Db} {round : ℤ}

theorem mem_addressesOf {address : Address} :
    address ∈ addressesOf db round ↔ (address, round) ∈ db.orchStakeByRound := by
  simp only [addressesOf, Finset.mem_image, Finset.mem_filter, Finmap.mem_keys]
  constructor
  · rintro ⟨key, ⟨stored, rfl⟩, rfl⟩
    exact stored
  · exact fun stored => ⟨(address, round), ⟨stored, rfl⟩, rfl⟩

theorem mem_stakesOf {row : OrchStake} :
    row ∈ stakesOf db round ↔
      ∃ address, db.orchStakeByRound.lookup (address, round) = some row := by
  simp only [stakesOf, List.mem_filterMap, mem_sortKeys, mem_addressesOf]
  constructor
  · rintro ⟨address, _, found⟩
    exact ⟨address, found⟩
  · rintro ⟨address, found⟩
    exact ⟨address, Finmap.mem_of_lookup_eq_some found, found⟩

theorem mem_recordedRounds : round ∈ recordedRounds db ↔ stakesOf db round ≠ [] := by
  rw [recordedRounds, Finset.mem_image]
  constructor
  · rintro ⟨⟨address, _⟩, stored, rfl⟩
    obtain ⟨row, found⟩ := Finmap.mem_iff.mp (Finmap.mem_keys.mp stored)
    exact List.ne_nil_of_mem (mem_stakesOf.mpr ⟨address, found⟩)
  · intro some_
    obtain ⟨row, member⟩ := List.exists_mem_of_ne_nil _ some_
    obtain ⟨address, found⟩ := mem_stakesOf.mp member
    exact ⟨(address, round), Finmap.mem_keys.mpr (Finmap.mem_of_lookup_eq_some found), rfl⟩

theorem mem_laterStakes {row : OrchStake} :
    row ∈ laterStakes db round ↔ ∃ later, round < later ∧ row ∈ stakesOf db later := by
  simp only [laterStakes, List.mem_flatMap, mem_sortKeys, Finset.mem_filter]
  constructor
  · rintro ⟨later, ⟨_, after⟩, member⟩
    exact ⟨later, after, member⟩
  · rintro ⟨later, after, member⟩
    exact ⟨later, ⟨mem_recordedRounds.mpr (List.ne_nil_of_mem member), after⟩, member⟩

theorem minBlock_eq_some {rows : List OrchStake} {block : ℤ} :
    minBlock rows = some block ↔
      (∃ row ∈ rows, row.blockNumber = block) ∧ ∀ row ∈ rows, block ≤ row.blockNumber := by
  rw [minBlock, List.min?_eq_some_iff, List.forall_mem_map, List.mem_map]

theorem minBlock_eq_none {rows : List OrchStake} : minBlock rows = none ↔ rows = [] := by
  rw [minBlock, List.min?_eq_none_iff, List.map_eq_nil_iff]

/-- A block is in the window of a round if the round has begun and no later round has. -/
theorem inRange_iff {range : ℤ × Option ℤ} (resolved : resolveRoundRange db round = some range)
    {block : ℤ} :
    InRange range block ↔ (∃ row ∈ stakesOf db round, row.blockNumber ≤ block) ∧
      ∀ row ∈ laterStakes db round, block < row.blockNumber := by
  obtain ⟨fromBlock, smallest, rfl⟩ := Option.map_eq_some_iff.mp resolved
  obtain ⟨⟨first, member, rfl⟩, least⟩ := minBlock_eq_some.mp smallest
  refine and_congr ⟨fun begun => ⟨first, member, begun⟩, ?_⟩ ?_
  · rintro ⟨row, listed, begun⟩
    exact le_trans (least row listed) begun
  · cases next : minBlock (laterStakes db round) with
    | none =>
        rw [minBlock_eq_none.mp next]
        simp
    | some nextBlock =>
        obtain ⟨⟨later, listed, rfl⟩, bound⟩ := minBlock_eq_some.mp next
        simp only [Option.map_some, Option.mem_some_iff, forall_eq']
        constructor
        · exact fun within row after => lt_of_lt_of_le (by omega) (bound row after)
        · intro before
          have strict := before later listed
          omega

/-- **Windows of different rounds are disjoint.** -/
theorem windows_disjoint {other : ℤ} {range otherRange : ℤ × Option ℤ}
    (resolved : resolveRoundRange db round = some range)
    (otherResolved : resolveRoundRange db other = some otherRange) (different : round ≠ other)
    {block : ℤ} (within : InRange range block) : ¬ InRange otherRange block := by
  intro alsoWithin
  obtain ⟨⟨row, member, begun⟩, noneLater⟩ := (inRange_iff resolved).mp within
  obtain ⟨⟨row', member', begun'⟩, noneLater'⟩ := (inRange_iff otherResolved).mp alsoWithin
  rcases lt_or_gt_of_ne different with before | after
  · exact absurd (noneLater row' (mem_laterStakes.mpr ⟨other, before, member'⟩)) (not_lt.mpr begun')
  · exact absurd (noneLater' row (mem_laterStakes.mpr ⟨round, after, member⟩)) (not_lt.mpr begun)

/-- **Every block from the start of a recorded round on is in the window of some round.** -/
theorem windows_cover {row : OrchStake} (member : row ∈ stakesOf db round) {block : ℤ}
    (begun : row.blockNumber ≤ block) :
    ∃ current ∈ recordedRounds db, ∃ range, resolveRoundRange db current = some range ∧
      InRange range block := by
  -- the last round that has begun
  have known : round ∈ (recordedRounds db).filter fun r =>
      ∃ row ∈ stakesOf db r, row.blockNumber ≤ block :=
    Finset.mem_filter.mpr
      ⟨mem_recordedRounds.mpr (List.ne_nil_of_mem member), row, member, begun⟩
  obtain ⟨current, largest⟩ := Finset.max_of_mem known
  obtain ⟨recorded, hasBegun⟩ := Finset.mem_filter.mp (Finset.mem_of_max largest)
  have resolves : ∃ range, resolveRoundRange db current = some range := by
    cases smallest : minBlock (stakesOf db current) with
    | none => exact absurd (minBlock_eq_none.mp smallest) (mem_recordedRounds.mp recorded)
    | some fromBlock => exact ⟨_, by rw [resolveRoundRange, smallest]; rfl⟩
  obtain ⟨range, resolved⟩ := resolves
  refine ⟨current, recorded, range, resolved, (inRange_iff resolved).mpr ⟨hasBegun, ?_⟩⟩
  intro later after
  obtain ⟨laterRound, beyond, listed⟩ := mem_laterStakes.mp after
  by_contra notAfter
  have alsoBegun : laterRound ∈ (recordedRounds db).filter fun r =>
      ∃ row ∈ stakesOf db r, row.blockNumber ≤ block :=
    Finset.mem_filter.mpr ⟨mem_recordedRounds.mpr (List.ne_nil_of_mem listed), later, listed,
      not_lt.mp notAfter⟩
  exact absurd (Finset.le_max_of_eq alsoBegun largest) (not_le.mpr beyond)

end Windows

/-! ## Where the rows of a round agree -/

section Agreement

variable {db : Db} {round : ℤ}

theorem start_eq_of_agree (agree : StartsAgree db) {row other : OrchStake}
    (member : row ∈ stakesOf db round) (listed : other ∈ stakesOf db round) :
    OrchStake.start other = OrchStake.start row := by
  obtain ⟨address, found⟩ := mem_stakesOf.mp listed
  obtain ⟨address', found'⟩ := mem_stakesOf.mp member
  obtain ⟨block, timestamp⟩ := agree _ _ _ _ found found' rfl
  exact Prod.ext block timestamp

/-- **Where the rows of a round agree, every route reports their start.** -/
theorem startReported_of_agree (agree : StartsAgree db) {row : OrchStake}
    (member : row ∈ stakesOf db round) :
    startedOfIndex db round = some (OrchStake.start row) ∧
      (∀ started, RoundGetStarted db round started → started = OrchStake.start row) ∧
        (latestRound db = some round → latestRoundStarted db = some (OrchStake.start row)) := by
  have same : ∀ other ∈ stakesOf db round, OrchStake.start other = OrchStake.start row :=
    fun other listed => start_eq_of_agree agree member listed
  refine ⟨?_, ?_, ?_⟩
  · have blocks : ((stakesOf db round).map fun row => row.blockNumber).max? =
        some row.blockNumber := by
      refine List.max?_eq_some_iff.mpr ⟨List.mem_map_of_mem member, ?_⟩
      rw [List.forall_mem_map]
      exact fun other listed => le_of_eq (congrArg Prod.fst (same other listed))
    have timestamps : ((stakesOf db round).map fun row => row.blockTimestamp).max? =
        some row.blockTimestamp := by
      refine List.max?_eq_some_iff.mpr ⟨List.mem_map_of_mem member, ?_⟩
      rw [List.forall_mem_map]
      exact fun other listed => le_of_eq (congrArg Prod.snd (same other listed))
    rw [startedOfIndex, blocks, timestamps]
    rfl
  · rintro started ⟨other, listed, rfl, _⟩
    exact same other listed
  · intro newest
    rw [latestRoundStarted, newest, Option.bind_some]
    cases rows : stakesOf db round with
    | nil =>
        rw [rows] at member
        exact absurd member List.not_mem_nil
    | cons first rest =>
        have listed : first ∈ stakesOf db round := by
          rw [rows]
          exact List.mem_cons_self ..
        exact congrArg some (same first listed)

/-- The rows of a round agree, so do the routes, and the windows partition the blocks. -/
structure RoundStartsCoherent (db : Db) : Prop where
  rows : StartsAgree db
  get : ∀ round started, RoundGetStarted db round started → startedOfIndex db round = some started
  stats : ∀ round, latestRound db = some round → latestRoundStarted db = startedOfIndex db round
  disjoint : ∀ round other, round ≠ other → ∀ range otherRange,
    resolveRoundRange db round = some range → resolveRoundRange db other = some otherRange →
      ∀ block, InRange range block → ¬ InRange otherRange block
  cover : ∀ first ∈ recordedRounds db, (∀ round ∈ recordedRounds db, first ≤ round) →
    ∀ started, startedOfIndex db first = some started → ∀ block, started.1 ≤ block →
      ∃ current ∈ recordedRounds db, ∃ range, resolveRoundRange db current = some range ∧
        InRange range block

theorem coherent_of_agree (agree : StartsAgree db) : RoundStartsCoherent db where
  rows := agree
  get _ started reported := by
    obtain ⟨row, member, rfl, _⟩ := reported
    exact (startReported_of_agree agree member).1
  stats round newest := by
    have recorded := mem_recordedRounds.mp (latest_eq_some.mp newest).1
    obtain ⟨row, member⟩ := List.exists_mem_of_ne_nil _ recorded
    obtain ⟨index, _, stats⟩ := startReported_of_agree agree member
    rw [stats newest, index]
  disjoint _ _ different _ _ resolved otherResolved _ within :=
    windows_disjoint resolved otherResolved different within
  cover first recorded _ started reported block begun := by
    obtain ⟨row, member⟩ := List.exists_mem_of_ne_nil _ (mem_recordedRounds.mp recorded)
    rw [(startReported_of_agree agree member).1, Option.some.injEq] at reported
    subst reported
    exact windows_cover member begun

end Agreement

/-! ## Every run -/

/-- **If the bootstrapped rows of a round agree with each other and with the history, the starts of
rounds are coherent in every state that profile runs lead to.** -/
theorem roundStarts_coherent {reads : OrchReads} {history : RoundHistory}
    {profiles : Table Address FormerProfile} {events : List RawEvent} {db : Db}
    (log : history.Follows events) (agree : PortedAgree history (portedRows profiles events))
    (run : GuardedRun (step reads) (follows history) (start profiles events) db) :
    RoundStartsCoherent db :=
  coherent_of_agree (startsAgree_of_run log agree run)

/-! ## Profiles of one round -/

/-- The `NewRound` event of round 5, at block 100. -/
def newRoundFive : RawEvent :=
  { txHash := "0xr"
    logIndex := 0
    blockNumber := 100
    blockHash := "0xb"
    blockTimestamp := 0
    contractName := .RoundsManager
    eventName := .NewRound
    asset := none
    amountNormalized := none
    isValuable := false
    fromAddress := none
    toAddress := none
    decoded := .newRound 5
    amount_of_asset := fun absurd => absurd
    id := 1
    finality := .finalized
    isCanonical := true
    finalizedAt := some 0 }

def roundFive : RoundHistory where
  starts := [⟨5, 100, 0⟩]
  ascending := List.pairwise_singleton ..

theorem follows_roundFive : roundFive.Follows [newRoundFive] := by
  intro e member _
  obtain rfl := List.mem_singleton.mp member
  exact ⟨⟨5, 100, 0⟩, List.mem_singleton_self _, rfl, rfl, rfl⟩

/-- A former profile of round 5, as of some block. -/
def profileAsOf (block : ℤ) : FormerProfile where
  totalStake := 0
  latestFeeCutPercent := 0
  latestRewardCutPercent := 0
  latestFeeSharePercent := 0
  isActive := true
  lastLifecycleEventAt := none
  asOfBlock := block
  asOfRound := some 5
  lastEventId := 1
  serviceUri := none

/-- Contracts without stake. -/
def idleReads : OrchReads where
  transcoderTotalStake _ _ := 0
  rewardCut _ _ := 0
  feeShare _ _ := 0
  transcoderPool _ := []
  serviceRegistry _ := ""
  serviceUri _ _ _ := ""
  delegateAddress _ _ := ""

/-- A profile as of the start of its round agrees with the rows that a run adds. -/
theorem startedProfile_coherent :
    RoundStartsCoherent (runProfileBackfill idleReads false 10
      (start (Finmap.singleton "0xo" (profileAsOf 100)) [newRoundFive])).1 :=
  roundStarts_coherent follows_roundFive ⟨by decide +kernel, by decide +kernel⟩
    (Relation.ReflTransGen.single ⟨.profile false 10, trivial, rfl⟩)

/-- **Two former profiles of one round, as of different blocks, stay apart.** -/
theorem bootstrap_disagrees :
    ¬ ∀ reads history profiles events db, history.Follows events →
      GuardedRun (step reads) (follows history) (start profiles events) db →
        RoundStartsCoherent db := by
  intro law
  have agree := (law idleReads roundFive
    ((Finmap.singleton "0xo" (profileAsOf 100)).insert "0xp" (profileAsOf 120)) [newRoundFive] _
    follows_roundFive Relation.ReflTransGen.refl).rows
  have stored : ∀ key ∈ [(("0xo" : Address), (5 : ℤ), (100 : ℤ)), ("0xp", 5, 120)],
      ((start ((Finmap.singleton "0xo" (profileAsOf 100)).insert "0xp" (profileAsOf 120))
        [newRoundFive]).orchStakeByRound.lookup (key.1, key.2.1)).map
          (fun row => row.blockNumber) = some key.2.2 := by
    decide +kernel
  obtain ⟨row, found, early⟩ := Option.map_eq_some_iff.mp (stored _ (List.mem_cons_self ..))
  obtain ⟨row', found', late⟩ :=
    Option.map_eq_some_iff.mp (stored _ (List.mem_cons_of_mem _ (List.mem_singleton_self _)))
  have same := (agree _ _ _ _ found found' rfl).1
  rw [early, late] at same
  exact absurd same (by decide)

end ProtocolExplorer.Api
