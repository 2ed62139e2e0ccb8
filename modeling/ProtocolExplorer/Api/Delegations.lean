import ProtocolExplorer.Lib.KeysetPaging
import ProtocolExplorer.Store.Database

/-!
# Counting the live delegations

Four endpoints read the current delegations off `stake_balances_by_block`.  A delegator is bonded
to one delegate at a time, so his last row is his delegation: the index of delegators, the
delegators of an orchestrator and those of a transcoder at a block select it before they look at
its delegate.  The network statistics take the last row of every pair of delegator and delegate.

* `enumerations_agree` — the three enumerations agree on every table;
* `countsAgree_iff` — **the statistics agree with them exactly when nobody's last row under a
  delegate he has left is positive**;
* `movedBond_counted_twice` — a delegator who moved his bond.
-/

set_option autoImplicit false

namespace ProtocolExplorer.Api.Delegations

open ProtocolExplorer.Lib
open ProtocolExplorer.Store

/-! ## Latest rows -/

/-- The block of the last row of a delegator among those that pass. -/
def latestBlock (db : Db) (passes : ℤ → StakeRow → Bool) (delegator : Address) : Option ℤ :=
  latest ((db.stakeBalancesByBlock.keys.filter fun key =>
    key.1 = delegator ∧ (db.stakeBalancesByBlock.lookup key).any (passes key.2)).image Prod.snd)

/-- `DISTINCT ON (delegator_address) … ORDER BY block_number DESC`, for one delegator. -/
def latestRow (db : Db) (passes : ℤ → StakeRow → Bool) (delegator : Address) :
    Option (ℤ × StakeRow) :=
  (latestBlock db passes delegator).bind fun block =>
    (db.stakeBalancesByBlock.lookup (delegator, block)).map fun row => (block, row)

/-- The delegators with a row that passes. -/
def delegatorsWith (db : Db) (passes : ℤ → StakeRow → Bool) : Finset Address :=
  (db.stakeBalancesByBlock.keys.filter fun key =>
    (db.stakeBalancesByBlock.lookup key).any (passes key.2)).image Prod.fst

/-- Any row. -/
def anyRow (_ : ℤ) (_ : StakeRow) : Bool := true

/-- `delegate_address = …`. -/
def under (delegate : Address) (_ : ℤ) (row : StakeRow) : Bool :=
  decide (row.delegateAddress = delegate)

/-- `block_number <= …`. -/
def upTo (block : ℤ) (blockNumber : ℤ) (_ : StakeRow) : Bool := decide (blockNumber ≤ block)

/-- A delegator with his row. -/
structure Delegation where
  delegator : Address
  blockNumber : ℤ
  row : StakeRow

/-- The latest rows of some delegators, in the order of their addresses. -/
def latestRows (db : Db) (passes : ℤ → StakeRow → Bool) (delegators : Finset Address) :
    List Delegation :=
  (sortKeys delegators).filterMap fun delegator =>
    (latestRow db passes delegator).map fun (blockNumber, row) => ⟨delegator, blockNumber, row⟩

/-- `bonded_principal > 0`. -/
def Delegation.live (d : Delegation) : Bool := decide (0 < d.row.bondedPrincipal)

/-! ## The endpoints -/

/-- The key of the cursors: `ORDER BY bonded_principal DESC, delegator_address ASC`. -/
def mostBondedFirst (d : Delegation) : Lex (OrderDual Numeric × Address) :=
  toLex (OrderDual.toDual d.row.bondedPrincipal, d.delegator)

/-- `limit.unwrap_or(DEFAULT_LIMIT).min(MAX_LIMIT)`. -/
def pageLimit (limit : Option ℕ) : ℕ := min (limit.getD 50) 500

/-- The rows of `/delegators`. -/
def indexRows (db : Db) : List Delegation :=
  (latestRows db anyRow (delegatorsWith db anyRow)).filter Delegation.live

/-- A row of `/delegators`. -/
structure DelegatorIndexRow where
  delegatorAddress : Address
  totalBonded : Numeric
  delegationCount : ℕ
  isActive : Bool
  firstBondBlock : Option ℤ
  lastSeenBlock : Option ℤ

def indexRow (db : Db) (d : Delegation) : DelegatorIndexRow :=
  let registered := db.delegatorRegistry.lookup d.delegator
  { delegatorAddress := d.delegator
    totalBonded := d.row.bondedPrincipal
    delegationCount := 1
    isActive := (registered.map RegistryRow.isActive).getD false
    firstBondBlock := registered.map RegistryRow.firstBondBlock
    lastSeenBlock := registered.map RegistryRow.lastSeenBlock }

/-- `list` of `/delegators`: one page. -/
def list (db : Db) (cursor : Option (Lex (OrderDual Numeric × Address))) (limit : Option ℕ) :
    Page DelegatorIndexRow (Lex (OrderDual Numeric × Address)) :=
  let answer := simplePage mostBondedFirst (pageLimit limit) (indexRows db) cursor
  ⟨answer.data.map (indexRow db), answer.nextCursor⟩

/-- A row of `/orchestrators/{address}/delegators`. -/
structure OrchDelegatorRow where
  delegatorAddress : Address
  bondedPrincipal : Numeric
  pendingStake : Option Numeric
  pendingFees : Option Numeric
  pendingRound : Option ℤ
  asOfBlock : ℤ
  asOfTimestamp : Timestamp

def orchDelegatorRow (d : Delegation) : OrchDelegatorRow where
  delegatorAddress := d.delegator
  bondedPrincipal := d.row.bondedPrincipal
  pendingStake := d.row.pendingStake
  pendingFees := d.row.pendingFees
  pendingRound := d.row.pendingRound
  asOfBlock := d.blockNumber
  asOfTimestamp := d.row.blockTimestamp

/-- The rows of `/orchestrators/{address}/delegators`: the delegate is compared after the latest
row has been selected. -/
def orchestratorRows (db : Db) (orch : Address) : List Delegation :=
  (latestRows db anyRow (delegatorsWith db anyRow)).filter fun d =>
    decide (d.row.delegateAddress = orch) && d.live

/-- `for_orchestrator`: one page. -/
def forOrchestrator (db : Db) (orch : Address)
    (cursor : Option (Lex (OrderDual Numeric × Address))) (limit : Option ℕ) :
    Page OrchDelegatorRow (Lex (OrderDual Numeric × Address)) :=
  let answer := simplePage mostBondedFirst (pageLimit limit) (orchestratorRows db orch) cursor
  ⟨answer.data.map orchDelegatorRow, answer.nextCursor⟩

/-- A row of `/transcoders/{transcoder}/delegators/block/{block}`. -/
structure DelegatorStakeRow where
  delegatorAddress : Address
  delegateAddress : Address
  blockNumber : ℤ
  blockTimestamp : Timestamp
  blockHash : BlockHash
  bondedPrincipal : Numeric
  pendingStake : Option Numeric
  pendingFees : Option Numeric
  pendingRound : Option ℤ
  source : StakeSource
  stalenessBlocks : ℤ

def delegatorStakeRow (block : ℤ) (d : Delegation) : DelegatorStakeRow where
  delegatorAddress := d.delegator
  delegateAddress := d.row.delegateAddress
  blockNumber := d.blockNumber
  blockTimestamp := d.row.blockTimestamp
  blockHash := d.row.blockHash
  bondedPrincipal := d.row.bondedPrincipal
  pendingStake := d.row.pendingStake
  pendingFees := d.row.pendingFees
  pendingRound := d.row.pendingRound
  source := d.row.source
  stalenessBlocks := block - d.blockNumber

structure DelegatorListResponse where
  transcoderAddress : Address
  requestedBlock : ℤ
  delegatorCount : ℕ
  totalBondedPrincipal : Numeric
  data : List DelegatorStakeRow

/-- `delegators_at_block`. -/
def delegatorsAtBlock (db : Db) (transcoder : Address) (block : ℤ) : DelegatorListResponse :=
  let candidates := delegatorsWith db fun blockNumber row =>
    under transcoder blockNumber row && upTo block blockNumber row
  let rows := orderBy mostBondedFirst
    ((latestRows db (upTo block) candidates).filter fun d =>
      decide (d.row.delegateAddress = transcoder) && d.live)
  { transcoderAddress := transcoder
    requestedBlock := block
    delegatorCount := rows.length
    totalBondedPrincipal := (rows.map fun d => d.row.bondedPrincipal).sum
    data := rows.map (delegatorStakeRow block) }

/-- The pairs of delegator and delegate with a row. -/
def pairs (db : Db) : Finset (Address × Address) :=
  db.stakeBalancesByBlock.keys.image fun key =>
    (key.1, ((db.stakeBalancesByBlock.lookup key).map StakeRow.delegateAddress).getD "")

/-- `total_delegations` of `/network/stats`: the last row of every pair. -/
def totalDelegations (db : Db) : ℕ :=
  ((pairs db).filter fun pair =>
    (latestRow db (under pair.2) pair.1).any fun found => decide (0 < found.2.bondedPrincipal)).card

/-! ## Following the cursors -/

/-- The delegators `/delegators` lists on its pages, up to the first empty one. -/
def listedDelegators (db : Db) (limit : Option ℕ) : List DelegatorIndexRow :=
  (followUntilEmpty mostBondedFirst (pageLimit limit) (indexRows db)
    ((indexRows db).length + 1) none).map (indexRow db)

/-- The delegators of an orchestrator on all pages. -/
def listedFor (db : Db) (orch : Address) (limit : Option ℕ) : List OrchDelegatorRow :=
  (followUntilEmpty mostBondedFirst (pageLimit limit) (orchestratorRows db orch)
    ((orchestratorRows db orch).length + 1) none).map orchDelegatorRow

/-- The addresses some row names as the delegate. -/
def orchestrators (db : Db) : Finset Address := (pairs db).image Prod.snd

/-! ## What the queries select -/

section Latest

variable {db : Db} {passes : ℤ → StakeRow → Bool} {delegator : Address}

theorem latestRow_eq_some {block : ℤ} {row : StakeRow} :
    latestRow db passes delegator = some (block, row) ↔
      db.stakeBalancesByBlock.lookup (delegator, block) = some row ∧ passes block row = true ∧
        ∀ block' row', db.stakeBalancesByBlock.lookup (delegator, block') = some row' →
          passes block' row' = true → block' ≤ block := by
  have among : ∀ block, block ∈ ((db.stakeBalancesByBlock.keys.filter fun key =>
      key.1 = delegator ∧
        (db.stakeBalancesByBlock.lookup key).any (passes key.2)).image Prod.snd) ↔
      ∃ row, db.stakeBalancesByBlock.lookup (delegator, block) = some row ∧
        passes block row = true := by
    intro block
    simp only [Finset.mem_image, Finset.mem_filter, Finmap.mem_keys, Option.any_eq_true,
      Prod.exists, exists_eq_right]
    constructor
    · rintro ⟨_, _, rfl, row, stored, passed⟩
      exact ⟨row, stored, passed⟩
    · rintro ⟨row, stored, passed⟩
      exact ⟨delegator, Finmap.mem_of_lookup_eq_some stored, rfl, row, stored, passed⟩
  simp only [latestRow, latestBlock, Option.bind_eq_some_iff, Option.map_eq_some_iff,
    latest_eq_some, among, Prod.mk.injEq]
  constructor
  · rintro ⟨_, ⟨⟨row', stored', passed⟩, last⟩, _, stored, rfl, rfl⟩
    rw [stored] at stored'
    cases stored'
    exact ⟨stored, passed, fun block' row' found kept => last block' ⟨row', found, kept⟩⟩
  · rintro ⟨stored, passed, last⟩
    refine ⟨block, ⟨⟨row, stored, passed⟩, ?_⟩, row, stored, rfl, rfl⟩
    rintro other ⟨row', found, kept⟩
    exact last other row' found kept

/-- A row that passes has a latest one beside it. -/
theorem exists_latestRow {block : ℤ} {row : StakeRow}
    (stored : db.stakeBalancesByBlock.lookup (delegator, block) = some row)
    (passed : passes block row = true) :
    ∃ found, latestRow db passes delegator = some found := by
  cases missing : latestRow db passes delegator with
  | some found => exact ⟨found, rfl⟩
  | none =>
      simp only [latestRow, latestBlock, Option.bind_eq_none_iff, Option.map_eq_none_iff] at missing
      have member : block ∈ ((db.stakeBalancesByBlock.keys.filter fun key => key.1 = delegator ∧
          (db.stakeBalancesByBlock.lookup key).any (passes key.2)).image Prod.snd) :=
        Finset.mem_image.mpr ⟨(delegator, block), Finset.mem_filter.mpr
          ⟨Finmap.mem_keys.mpr (Finmap.mem_of_lookup_eq_some stored), rfl, by
            rw [stored]
            exact passed⟩, rfl⟩
      obtain ⟨last, isLast⟩ := Finset.max_of_mem member
      obtain ⟨_, inside, same⟩ := Finset.mem_image.mp (Finset.mem_of_max isLast)
      obtain ⟨present, own, _⟩ := Finset.mem_filter.mp inside
      have nothing := missing last isLast
      rw [Finmap.lookup_eq_none, ← own, ← same] at nothing
      exact absurd (Finmap.mem_keys.mp present) nothing

theorem mem_delegatorsWith : delegator ∈ delegatorsWith db passes ↔
    ∃ block row, db.stakeBalancesByBlock.lookup (delegator, block) = some row ∧
      passes block row = true := by
  simp only [delegatorsWith, Finset.mem_image, Finset.mem_filter, Finmap.mem_keys,
    Option.any_eq_true, Prod.exists]
  constructor
  · rintro ⟨_, block, ⟨_, row, stored, passed⟩, rfl⟩
    exact ⟨block, row, stored, passed⟩
  · rintro ⟨block, row, stored, passed⟩
    exact ⟨delegator, block, ⟨Finmap.mem_of_lookup_eq_some stored, row, stored, passed⟩, rfl⟩

/-- As many latest rows are kept as delegators whose latest row is. -/
theorem length_filter_latestRows (delegators : Finset Address) (keep : Delegation → Bool) :
    ((latestRows db passes delegators).filter keep).length =
      (delegators.filter fun delegator => (latestRow db passes delegator).any fun found =>
        keep ⟨delegator, found.1, found.2⟩).card := by
  have counted : ∀ addresses : List Address,
      ((addresses.filterMap fun delegator => (latestRow db passes delegator).map
        fun (blockNumber, row) => (⟨delegator, blockNumber, row⟩ : Delegation)).filter
          keep).length =
        (addresses.filter fun delegator => (latestRow db passes delegator).any fun found =>
          keep ⟨delegator, found.1, found.2⟩).length := by
    intro addresses
    induction addresses with
    | nil => rfl
    | cons delegator rest inductionHypothesis =>
        rw [List.filterMap_cons, List.filter_cons]
        cases latestRow db passes delegator with
        | none => exact inductionHypothesis
        | some found =>
            obtain ⟨blockNumber, row⟩ := found
            simp only [Option.map_some, List.filter_cons, Option.any_some]
            split
            · simpa using inductionHypothesis
            · exact inductionHypothesis
  rw [latestRows, counted]
  have distinct := (nodup_sortKeys delegators).filter fun delegator =>
    (latestRow db passes delegator).any fun found => keep ⟨delegator, found.1, found.2⟩
  rw [← List.toFinset_card_of_nodup distinct]
  congr 1
  ext delegator
  simp [mem_sortKeys]

end Latest

/-! ## The enumerations -/

section Enumerations

variable {db : Db} {limit : Option ℕ}

/-- The delegators whose last row is positive. -/
def liveDelegators (db : Db) : Finset Address :=
  (delegatorsWith db anyRow).filter fun delegator =>
    (latestRow db anyRow delegator).any fun found => decide (0 < found.2.bondedPrincipal)

/-- The delegate of the last row of a delegator. -/
def currentDelegate (db : Db) (delegator : Address) : Address :=
  ((latestRow db anyRow delegator).map fun found => found.2.delegateAddress).getD ""

theorem mem_liveDelegators {delegator : Address} : delegator ∈ liveDelegators db ↔
    ∃ block row, latestRow db anyRow delegator = some (block, row) ∧ 0 < row.bondedPrincipal := by
  simp only [liveDelegators, Finset.mem_filter, mem_delegatorsWith, Option.any_eq_true,
    decide_eq_true_eq, Prod.exists]
  constructor
  · rintro ⟨_, block, row, found, positive⟩
    exact ⟨block, row, found, positive⟩
  · rintro ⟨block, row, found, positive⟩
    exact ⟨⟨block, row, (latestRow_eq_some.mp found).1, rfl⟩, block, row, found, positive⟩

/-- No two latest rows belong to one delegator. -/
theorem nodup_delegator (passes : ℤ → StakeRow → Bool) (delegators : Finset Address) :
    ((latestRows db passes delegators).map Delegation.delegator).Nodup := by
  refine List.Nodup.sublist ?_ (nodup_sortKeys delegators)
  unfold latestRows
  induction sortKeys delegators with
  | nil => exact List.Sublist.refl _
  | cons delegator rest inductionHypothesis =>
      rw [List.filterMap_cons]
      cases latestRow db passes delegator with
      | none => exact inductionHypothesis.cons delegator
      | some found => exact inductionHypothesis.cons_cons delegator

theorem nodup_mostBondedFirst (passes : ℤ → StakeRow → Bool) (delegators : Finset Address)
    (keep : Delegation → Bool) :
    (((latestRows db passes delegators).filter keep).map mostBondedFirst).Nodup := by
  refine List.Nodup.sublist (List.filter_sublist.map mostBondedFirst) ?_
  refine List.Nodup.of_map (fun key => (ofLex key).2) ?_
  rw [List.map_map]
  exact nodup_delegator passes delegators

theorem length_listedDelegators (positive : 0 < pageLimit limit) :
    (listedDelegators db limit).length = (liveDelegators db).card := by
  have apart : ((indexRows db).map mostBondedFirst).Nodup := nodup_mostBondedFirst anyRow _ _
  rw [listedDelegators, List.length_map, followUntilEmpty_eq positive apart
    (by rw [afterCursor_none]; exact Nat.lt_succ_self _), (orderBy_perm _ _).length_eq,
    afterCursor_none, indexRows, length_filter_latestRows]
  rfl

theorem length_listedFor (positive : 0 < pageLimit limit) (orch : Address) :
    (listedFor db orch limit).length =
      ((liveDelegators db).filter fun delegator => currentDelegate db delegator = orch).card := by
  have apart : ((orchestratorRows db orch).map mostBondedFirst).Nodup :=
    nodup_mostBondedFirst anyRow _ _
  rw [listedFor, List.length_map, followUntilEmpty_eq positive apart
    (by rw [afterCursor_none]; exact Nat.lt_succ_self _), (orderBy_perm _ _).length_eq,
    afterCursor_none, orchestratorRows, length_filter_latestRows, liveDelegators,
    Finset.filter_filter]
  refine congrArg Finset.card (Finset.filter_congr ?_)
  intro delegator _
  unfold currentDelegate
  cases latestRow db anyRow delegator with
  | none => simp
  | some found => simp [Delegation.live, and_comm]

/-- Past the last stored block, a transcoder's delegators are those of the orchestrator. -/
theorem delegatorCount_eq {block : ℤ} (late : ∀ key ∈ db.stakeBalancesByBlock, key.2 ≤ block)
    (transcoder : Address) :
    (delegatorsAtBlock db transcoder block).delegatorCount =
      ((liveDelegators db).filter fun delegator =>
        currentDelegate db delegator = transcoder).card := by
  have whole : ∀ delegator, latestRow db (upTo block) delegator = latestRow db anyRow delegator := by
    intro delegator
    refine Option.ext fun found => ?_
    obtain ⟨blockNumber, row⟩ := found
    rw [latestRow_eq_some, latestRow_eq_some]
    refine and_congr_right fun stored => ?_
    have early : ∀ {block' : ℤ} {row' : StakeRow},
        db.stakeBalancesByBlock.lookup (delegator, block') = some row' →
          upTo block block' row' = true := by
      intro block' row' found
      exact decide_eq_true (late (delegator, block') (Finmap.mem_of_lookup_eq_some found))
    constructor
    · rintro ⟨_, last⟩
      exact ⟨rfl, fun block' row' found _ => last block' row' found (early found)⟩
    · rintro ⟨_, last⟩
      exact ⟨early stored, fun block' row' found _ => last block' row' found rfl⟩
  unfold delegatorsAtBlock
  simp only
  rw [(orderBy_perm _ _).length_eq, length_filter_latestRows]
  refine congrArg Finset.card (Finset.ext fun delegator => ?_)
  rw [Finset.mem_filter, Finset.mem_filter, mem_delegatorsWith, mem_liveDelegators, whole]
  simp only [Option.any_eq_true, Bool.and_eq_true, decide_eq_true_eq, Delegation.live, Prod.exists,
    currentDelegate]
  constructor
  · rintro ⟨_, blockNumber, row, found, own, positive⟩
    exact ⟨⟨blockNumber, row, found, positive⟩, by rw [found]; exact own⟩
  · rintro ⟨⟨blockNumber, row, found, positive⟩, own⟩
    rw [found] at own
    have stored := (latestRow_eq_some.mp found).1
    exact ⟨⟨blockNumber, row, stored, decide_eq_true own,
      decide_eq_true (late _ (Finmap.mem_of_lookup_eq_some stored))⟩,
      blockNumber, row, found, own, positive⟩

theorem mem_pairs {pair : Address × Address} : pair ∈ pairs db ↔
    ∃ block row, db.stakeBalancesByBlock.lookup (pair.1, block) = some row ∧
      row.delegateAddress = pair.2 := by
  simp only [pairs, Finset.mem_image, Finmap.mem_keys, Prod.exists]
  constructor
  · rintro ⟨delegator, block, present, rfl⟩
    obtain ⟨row, stored⟩ := Finmap.mem_iff.mp present
    exact ⟨block, row, stored, by rw [stored]; rfl⟩
  · rintro ⟨block, row, stored, own⟩
    refine ⟨pair.1, block, Finmap.mem_of_lookup_eq_some stored, ?_⟩
    rw [stored]
    exact Prod.ext rfl own

/-- Every live delegator is bonded to an orchestrator. -/
theorem currentDelegate_mem {delegator : Address} (live : delegator ∈ liveDelegators db) :
    currentDelegate db delegator ∈ orchestrators db := by
  obtain ⟨block, row, found, _⟩ := mem_liveDelegators.mp live
  refine Finset.mem_image.mpr ⟨(delegator, row.delegateAddress),
    mem_pairs.mpr ⟨block, row, (latestRow_eq_some.mp found).1, rfl⟩, ?_⟩
  rw [currentDelegate, found]
  rfl

theorem sum_card_currentDelegate :
    ∑ orch ∈ orchestrators db, ((liveDelegators db).filter fun delegator =>
      currentDelegate db delegator = orch).card = (liveDelegators db).card :=
  (Finset.card_eq_sum_card_fiberwise fun _ live => currentDelegate_mem live).symm

/-- **The index, the orchestrators' lists and the transcoders' lists agree on every table.** -/
theorem enumerations_agree (positive : 0 < pageLimit limit) {block : ℤ}
    (late : ∀ key ∈ db.stakeBalancesByBlock, key.2 ≤ block) :
    (listedDelegators db limit).length =
        ∑ orch ∈ orchestrators db, (listedFor db orch limit).length ∧
      (listedDelegators db limit).length =
        ∑ transcoder ∈ orchestrators db, (delegatorsAtBlock db transcoder block).delegatorCount := by
  simp only [length_listedDelegators positive, length_listedFor positive, delegatorCount_eq late,
    sum_card_currentDelegate, and_self]

end Enumerations

/-! ## The statistics -/

/-- The four counts are one number, for every page size and every block past the last row. -/
structure CountsAgree (db : Db) : Prop where
  index : ∀ limit, 0 < pageLimit limit →
    totalDelegations db = (listedDelegators db limit).length
  perOrchestrator : ∀ limit, 0 < pageLimit limit →
    totalDelegations db = ∑ orch ∈ orchestrators db, (listedFor db orch limit).length
  perTranscoder : ∀ block, (∀ key ∈ db.stakeBalancesByBlock, key.2 ≤ block) →
    totalDelegations db =
      ∑ transcoder ∈ orchestrators db, (delegatorsAtBlock db transcoder block).delegatorCount

/-- The last row of a delegator under a delegate other than that of his last row is not
positive. -/
def NothingLeftBehind (db : Db) : Prop :=
  ∀ delegator delegate block row block' row',
    latestRow db anyRow delegator = some (block, row) →
    latestRow db (under delegate) delegator = some (block', row') →
    row.delegateAddress ≠ delegate → ¬ 0 < row'.bondedPrincipal

variable {db : Db}

/-- The pairs the statistics count. -/
def countedPairs (db : Db) : Finset (Address × Address) :=
  (pairs db).filter fun pair =>
    (latestRow db (under pair.2) pair.1).any fun found => decide (0 < found.2.bondedPrincipal)

theorem mem_countedPairs {pair : Address × Address} : pair ∈ countedPairs db ↔
    ∃ block row, latestRow db (under pair.2) pair.1 = some (block, row) ∧
      0 < row.bondedPrincipal := by
  simp only [countedPairs, Finset.mem_filter, mem_pairs, Option.any_eq_true, decide_eq_true_eq,
    Prod.exists]
  constructor
  · rintro ⟨_, block, row, found, positive⟩
    exact ⟨block, row, found, positive⟩
  · rintro ⟨block, row, found, positive⟩
    obtain ⟨stored, own, _⟩ := latestRow_eq_some.mp found
    exact ⟨⟨block, row, stored, of_decide_eq_true own⟩, block, row, found, positive⟩

/-- The last row of a delegator is also his last under its delegate. -/
theorem latestRow_under {delegator : Address} {block : ℤ} {row : StakeRow}
    (found : latestRow db anyRow delegator = some (block, row)) :
    latestRow db (under row.delegateAddress) delegator = some (block, row) := by
  obtain ⟨stored, _, last⟩ := latestRow_eq_some.mp found
  exact latestRow_eq_some.mpr
    ⟨stored, decide_eq_true rfl, fun block' row' there _ => last block' row' there rfl⟩

/-- A counted pair is that of the delegator's last row, or is left behind. -/
theorem countedPairs_eq_iff :
    countedPairs db = (liveDelegators db).image (fun d => (d, currentDelegate db d)) ↔
      NothingLeftBehind db := by
  constructor
  · intro same delegator delegate block row block' row' last lastUnder different positive
    have counted : (delegator, delegate) ∈ countedPairs db :=
      mem_countedPairs.mpr ⟨block', row', lastUnder, positive⟩
    rw [same] at counted
    obtain ⟨d, _, equal⟩ := Finset.mem_image.mp counted
    obtain ⟨rfl, rfl⟩ := Prod.mk.inj equal
    rw [currentDelegate, last] at different
    exact different rfl
  · intro nothing
    ext ⟨delegator, delegate⟩
    rw [mem_countedPairs, Finset.mem_image]
    constructor
    · rintro ⟨block', row', lastUnder, positive⟩
      have some_ : ∃ found, latestRow db anyRow delegator = some found :=
        exists_latestRow (latestRow_eq_some.mp lastUnder).1 rfl
      obtain ⟨⟨block, row⟩, last⟩ := some_
      have own : row.delegateAddress = delegate := by
        by_contra different
        exact nothing delegator delegate block row block' row' last lastUnder different positive
      have same := latestRow_under last
      rw [own, lastUnder] at same
      cases same
      exact ⟨delegator, mem_liveDelegators.mpr ⟨_, _, last, positive⟩,
        Prod.ext rfl (by rw [currentDelegate, last]; exact own)⟩
    · rintro ⟨d, live, equal⟩
      obtain ⟨rfl, rfl⟩ := Prod.mk.inj equal
      obtain ⟨block, row, last, positive⟩ := mem_liveDelegators.mp live
      rw [currentDelegate, last]
      exact ⟨block, row, latestRow_under last, positive⟩

/-- Every live delegator is counted once at least. -/
theorem image_subset_countedPairs :
    (liveDelegators db).image (fun d => (d, currentDelegate db d)) ⊆ countedPairs db := by
  intro pair member
  obtain ⟨d, live, rfl⟩ := Finset.mem_image.mp member
  obtain ⟨block, row, last, positive⟩ := mem_liveDelegators.mp live
  refine mem_countedPairs.mpr ⟨block, row, ?_, positive⟩
  rw [currentDelegate, last]
  exact latestRow_under last

theorem totalDelegations_eq_iff :
    totalDelegations db = (liveDelegators db).card ↔ NothingLeftBehind db := by
  have once : ((liveDelegators db).image fun d => (d, currentDelegate db d)).card =
      (liveDelegators db).card :=
    Finset.card_image_of_injective _ fun a b same => (Prod.mk.inj same).1
  rw [← countedPairs_eq_iff]
  constructor
  · intro counts
    exact (Finset.eq_of_subset_of_card_le image_subset_countedPairs
      (le_of_eq (counts.trans once.symm))).symm
  · intro same
    show (countedPairs db).card = _
    rw [same, once]

/-- **The statistics agree with the three enumerations exactly when nobody has left a positive
last row behind.** -/
theorem countsAgree_iff (db : Db) : CountsAgree db ↔ NothingLeftBehind db := by
  constructor
  · intro agree
    have counts := agree.index none (by decide)
    rw [length_listedDelegators (by decide)] at counts
    exact totalDelegations_eq_iff.mp counts
  · intro nothing
    have counts := totalDelegations_eq_iff.mpr nothing
    refine ⟨?_, ?_, ?_⟩
    · intro limit positive
      rw [length_listedDelegators positive, counts]
    · intro limit positive
      simp only [length_listedFor positive, sum_card_currentDelegate, counts]
    · intro block late
      simp only [delegatorCount_eq late, sum_card_currentDelegate, counts]

/-! ## A delegator who moved -/

/-- A row of the flow replay. -/
def flowRow (delegateAddress : Address) (bonded : ℕ) : StakeRow where
  delegateAddress
  blockTimestamp := 0
  blockHash := "0xb"
  bondedPrincipal := u256ToDecimal bonded
  pendingStake := none
  pendingFees := none
  pendingRound := none
  source := .flowDerived
  triggeringEventId := none

/-- He bonds to one orchestrator and then to another. -/
def movedBond : Db :=
  { Db.empty with
    stakeBalancesByBlock := Finmap.insert ("0xd", 20) (flowRow "0xo2" 5)
      (Finmap.singleton ("0xd", 10) (flowRow "0xo1" 5)) }

/-- **The statistics count his old delegation as well.** -/
theorem movedBond_counted_twice : ¬ ∀ db, CountsAgree db := by
  intro law
  have counts := (law movedBond).index none (by decide)
  rw [length_listedDelegators (by decide)] at counts
  revert counts
  decide +kernel

end ProtocolExplorer.Api.Delegations
