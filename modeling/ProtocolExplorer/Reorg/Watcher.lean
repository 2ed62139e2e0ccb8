import ProtocolExplorer.Lib.OrderedBatch
import ProtocolExplorer.Store.Database

/-!
# The reorg watcher

One iteration samples the distinct `(block_number, block_hash)` pairs of tentative
canonical rows near the head, compares each hash with the header the secondary provider
serves, and on a mismatch marks every canonical row of that block number.  A failed
header read ends the iteration; what was marked before stays.

`runOnce_rawProtocolEvents` condenses the loop: the rows of the blocks in `divergedBlocks`
lose `is_canonical`, nothing else changes.  `mem_divergedBlocks` says which blocks these
are.
-/

set_option autoImplicit false

namespace ProtocolExplorer.Reorg

open ProtocolExplorer.Lib
open ProtocolExplorer.Store

/-- `WALK_DEPTH`. -/
def walkDepth : ℕ := 7500

/-- What the secondary provider answers during one iteration; `none` is a failed call or a
header without a hash. -/
structure ChainView where
  head : Option ℕ
  blockHash : ℤ → Option BlockHash

structure ReorgIterationSummary where
  head : ℕ
  windowStart : ℕ
  blocksChecked : ℕ
  divergences : ℕ
  deriving DecidableEq

/-! ## Sampling -/

/-- Tentative canonical rows in the walk window. -/
def sampled (head : ℕ) (db : Db) : List RawEvent :=
  db.rawProtocolEvents.filter fun e =>
    decide (e.finality = .tentative) && e.isCanonical &&
      decide (((head - walkDepth : ℕ) : ℤ) ≤ e.blockNumber ∧ e.blockNumber ≤ (head : ℤ))

/-- `SELECT DISTINCT block_number, block_hash … ORDER BY block_number`. -/
def storedBlocks (head : ℕ) (db : Db) : List (ℤ × BlockHash) :=
  orderBy Prod.fst ((sampled head db).map fun e => (e.blockNumber, e.blockHash)).dedup

/-! ## Marking -/

/-- `SET is_canonical = FALSE WHERE block_number = $2 AND is_canonical = TRUE`. -/
def unmark (blockNumber : ℤ) (e : RawEvent) : RawEvent :=
  if e.blockNumber = blockNumber ∧ e.isCanonical = true then { e with isCanonical := false } else e

/-- `handle_divergence`: one transaction, the update and its audit row. -/
def handleDivergence (blockNumber : ℤ) (oldHash newHash : BlockHash) (db : Db) : Db :=
  { db with
    rawProtocolEvents := db.rawProtocolEvents.map (unmark blockNumber)
    reorgEvents := db.reorgEvents ++
      [{ divergenceBlock := blockNumber
         depth := 1
         oldBlockHashes := [oldHash]
         newBlockHashes := [newHash]
         affectedEventCount :=
           (db.rawProtocolEvents.filter fun e =>
             decide (e.blockNumber = blockNumber) && e.isCanonical).length
         notes := "v1 reorg-watcher: events-only walk; non-canonical marker only (TD-005)" }] }

/-- The loop over the sampled blocks; the second component counts the divergences, or is
`none` when a header read failed. -/
def checkBlocks (chain : ChainView) : List (ℤ × BlockHash) → Db → ℕ → Db × Option ℕ
  | [], db, divergences => (db, some divergences)
  | (blockNumber, stored) :: rest, db, divergences =>
      match chain.blockHash blockNumber with
      | none => (db, none)
      | some header =>
          let chainHash := header.toLower
          let storedHash := stored.toLower
          if chainHash ≠ storedHash then
            checkBlocks chain rest (handleDivergence blockNumber storedHash chainHash db)
              (divergences + 1)
          else checkBlocks chain rest db divergences

/-- `run_once`; `none` in place of the summary is an error return. -/
def runOnce (chain : ChainView) (db : Db) : Db × Option ReorgIterationSummary :=
  match chain.head with
  | none => (db, none)
  | some head =>
      let stored := storedBlocks head db
      let (checked, divergences) := checkBlocks chain stored db 0
      (checked, divergences.map fun n =>
        { head := head
          windowStart := head - walkDepth
          blocksChecked := stored.length
          divergences := n })

/-! ## What an iteration marks -/

/-- The blocks of a sample that are found divergent before a read fails. -/
def divergedBlocks (chain : ChainView) : List (ℤ × BlockHash) → List ℤ
  | [] => []
  | (blockNumber, stored) :: rest =>
      match chain.blockHash blockNumber with
      | none => []
      | some header =>
          if header.toLower ≠ stored.toLower then blockNumber :: divergedBlocks chain rest
          else divergedBlocks chain rest

/-- Lose `is_canonical` in any of the given blocks. -/
def unmarkAll (blocks : List ℤ) (e : RawEvent) : RawEvent :=
  if e.blockNumber ∈ blocks ∧ e.isCanonical = true then { e with isCanonical := false } else e

theorem unmarkAll_unmark (blockNumber : ℤ) (blocks : List ℤ) (e : RawEvent) :
    unmarkAll blocks (unmark blockNumber e) = unmarkAll (blockNumber :: blocks) e := by
  by_cases canonical : e.isCanonical = true
  · by_cases here : e.blockNumber = blockNumber
    · simp [unmark, unmarkAll, canonical, here]
    · simp [unmark, unmarkAll, canonical, here]
  · simp [unmark, unmarkAll, canonical]

theorem checkBlocks_rawProtocolEvents (chain : ChainView) (blocks : List (ℤ × BlockHash)) :
    ∀ (db : Db) (divergences : ℕ),
      (checkBlocks chain blocks db divergences).1.rawProtocolEvents =
        db.rawProtocolEvents.map (unmarkAll (divergedBlocks chain blocks)) := by
  induction blocks with
  | nil =>
      intro db _
      have same : unmarkAll (divergedBlocks chain []) = id := by
        funext e
        simp [unmarkAll, divergedBlocks]
      rw [same, List.map_id]
      rfl
  | cons block rest inductionHypothesis =>
      intro db divergences
      obtain ⟨blockNumber, stored⟩ := block
      cases header : chain.blockHash blockNumber with
      | none =>
          have same : unmarkAll [] = id := by
            funext e
            simp [unmarkAll]
          simp [checkBlocks, divergedBlocks, header, same]
      | some chainHash =>
          by_cases diverges : chainHash.toLower ≠ stored.toLower
          · simp only [checkBlocks, divergedBlocks, header, if_pos diverges, inductionHypothesis,
              handleDivergence, List.map_map]
            exact List.map_congr_left fun e _ => unmarkAll_unmark ..
          · simp only [checkBlocks, divergedBlocks, header, if_neg diverges, inductionHypothesis]

/-- The blocks an iteration marks. -/
def markedBlocks (chain : ChainView) (db : Db) : List ℤ :=
  chain.head.elim [] fun head => divergedBlocks chain (storedBlocks head db)

/-- An iteration unmarks the canonical rows of its diverged blocks, and only these. -/
theorem runOnce_rawProtocolEvents (chain : ChainView) (db : Db) :
    (runOnce chain db).1.rawProtocolEvents =
      db.rawProtocolEvents.map (unmarkAll (markedBlocks chain db)) := by
  unfold runOnce markedBlocks
  cases chain.head with
  | none =>
      have same : unmarkAll [] = id := by
        funext e
        simp [unmarkAll]
      simp [same]
  | some head => exact checkBlocks_rawProtocolEvents ..

/-- An iteration moves no checkpoint. -/
theorem runOnce_indexerCheckpoints (chain : ChainView) (db : Db) :
    (runOnce chain db).1.indexerCheckpoints = db.indexerCheckpoints := by
  have walk : ∀ (blocks : List (ℤ × BlockHash)) (db : Db) (divergences : ℕ),
      (checkBlocks chain blocks db divergences).1.indexerCheckpoints = db.indexerCheckpoints := by
    intro blocks
    induction blocks with
    | nil => exact fun _ _ => rfl
    | cons block rest inductionHypothesis =>
        intro db divergences
        unfold checkBlocks
        split
        · rfl
        · dsimp only
          split <;> exact inductionHypothesis ..
  unfold runOnce
  split
  · rfl
  · exact walk ..

/-- An iteration writes the events and the audit rows only. -/
theorem runOnce_frame (chain : ChainView) (db : Db) : ∃ audit, (runOnce chain db).1 =
    { db with
      rawProtocolEvents := db.rawProtocolEvents.map (unmarkAll (markedBlocks chain db))
      reorgEvents := audit } := by
  have walk : ∀ (blocks : List (ℤ × BlockHash)) (db : Db) (divergences : ℕ), ∃ events audit,
      (checkBlocks chain blocks db divergences).1 =
        { db with rawProtocolEvents := events, reorgEvents := audit } := by
    intro blocks
    induction blocks with
    | nil => exact fun db _ => ⟨db.rawProtocolEvents, db.reorgEvents, rfl⟩
    | cons block rest inductionHypothesis =>
        intro db divergences
        unfold checkBlocks
        split
        · exact ⟨db.rawProtocolEvents, db.reorgEvents, rfl⟩
        · dsimp only
          split
          · obtain ⟨events, audit, walked⟩ := inductionHypothesis (handleDivergence ..) _
            exact ⟨events, audit, walked⟩
          · exact inductionHypothesis ..
  have events := runOnce_rawProtocolEvents chain db
  have framed : ∃ events audit, (runOnce chain db).1 =
      { db with rawProtocolEvents := events, reorgEvents := audit } := by
    unfold runOnce
    split
    · exact ⟨db.rawProtocolEvents, db.reorgEvents, rfl⟩
    · exact walk ..
  obtain ⟨written, audit, frame⟩ := framed
  rw [frame] at events
  change written = _ at events
  exact ⟨audit, by rw [frame, events]⟩

/-- A row is unmarked exactly when it is canonical in one of the blocks. -/
theorem unmarkAll_isCanonical (blocks : List ℤ) (e : RawEvent) :
    (unmarkAll blocks e).isCanonical = (e.isCanonical && decide (e.blockNumber ∉ blocks)) := by
  unfold unmarkAll
  split
  · next marked => simp [marked.1]
  · next kept =>
      cases canonical : e.isCanonical with
      | false => rfl
      | true =>
          have outside : e.blockNumber ∉ blocks := fun member => kept ⟨member, canonical⟩
          simp [outside]

@[simp] theorem unmarkAll_toPreparedRow (blocks : List ℤ) (e : RawEvent) :
    (unmarkAll blocks e).toPreparedRow = e.toPreparedRow := by
  unfold unmarkAll
  split <;> rfl

@[simp] theorem unmarkAll_id (blocks : List ℤ) (e : RawEvent) :
    (unmarkAll blocks e).id = e.id := by
  unfold unmarkAll
  split <;> rfl

@[simp] theorem unmarkAll_finality (blocks : List ℤ) (e : RawEvent) :
    (unmarkAll blocks e).finality = e.finality := by
  unfold unmarkAll
  split <;> rfl

/-- Does the chain serve, at the row's block number, another hash than the row's? -/
def ChainView.differsFrom (chain : ChainView) (e : RawEvent) : Prop :=
  ∃ header ∈ chain.blockHash e.blockNumber, header.toLower ≠ e.blockHash.toLower

/-- In an ascending sample, a block diverges when one of its sampled hashes does and every
header before it was served. -/
theorem mem_divergedBlocks {chain : ChainView} {blocks : List (ℤ × BlockHash)}
    (ascending : blocks.Pairwise fun a b => a.1 ≤ b.1) {blockNumber : ℤ} :
    blockNumber ∈ divergedBlocks chain blocks ↔
      ∃ stored, (blockNumber, stored) ∈ blocks ∧
        (∃ header ∈ chain.blockHash blockNumber, header.toLower ≠ stored.toLower) ∧
        ∀ earlier ∈ blocks, earlier.1 < blockNumber →
          (chain.blockHash earlier.1).isSome = true := by
  induction blocks with
  | nil => simp [divergedBlocks]
  | cons block rest inductionHypothesis =>
      obtain ⟨first, hash⟩ := block
      obtain ⟨least, ascendingRest⟩ := List.pairwise_cons.mp ascending
      have later := inductionHypothesis ascendingRest
      cases served : chain.blockHash first with
      | none =>
          refine iff_of_false (by simp [divergedBlocks, served]) ?_
          rintro ⟨stored, member, ⟨header, found, _⟩, reached⟩
          rcases List.mem_cons.mp member with same | inRest
          · cases same
            rw [served] at found
            cases found
          · rcases lt_or_eq_of_le (least _ inRest) with below | same
            · have failed := reached (first, hash) (List.mem_cons_self ..) below
              rw [served] at failed
              cases failed
            · have here : first = blockNumber := same
              rw [← here, served] at found
              cases found
      | some header =>
          have restReached : (∀ earlier ∈ (first, hash) :: rest, earlier.1 < blockNumber →
              (chain.blockHash earlier.1).isSome = true) ↔
              ∀ earlier ∈ rest, earlier.1 < blockNumber →
                (chain.blockHash earlier.1).isSome = true := by
            refine ⟨fun all earlier member => all earlier (List.mem_cons_of_mem _ member), ?_⟩
            intro all earlier member below
            rcases List.mem_cons.mp member with rfl | inRest
            · simp [served]
            · exact all earlier inRest below
          constructor
          · intro diverged
            by_cases differs : header.toLower ≠ hash.toLower
            · rw [divergedBlocks, served] at diverged
              simp only [if_pos differs] at diverged
              rcases List.mem_cons.mp diverged with rfl | inRest
              · refine ⟨hash, List.mem_cons_self .., ⟨header, served, differs⟩, ?_⟩
                intro earlier member below
                rcases List.mem_cons.mp member with rfl | inRest
                · simp [served]
                · exact absurd below (not_lt.mpr (least earlier inRest))
              · obtain ⟨stored, member, found, reached⟩ := later.mp inRest
                exact ⟨stored, List.mem_cons_of_mem _ member, found, restReached.mpr reached⟩
            · rw [divergedBlocks, served] at diverged
              simp only [if_neg differs] at diverged
              obtain ⟨stored, member, found, reached⟩ := later.mp diverged
              exact ⟨stored, List.mem_cons_of_mem _ member, found, restReached.mpr reached⟩
          · rintro ⟨stored, member, found, reached⟩
            rw [divergedBlocks, served]
            rcases List.mem_cons.mp member with same | inRest
            · cases same
              obtain ⟨other, found, differs⟩ := found
              rw [served] at found
              cases found
              simp only [if_pos differs]
              exact List.mem_cons_self ..
            · have diverged := later.mpr ⟨stored, inRest, found, restReached.mp reached⟩
              by_cases differs : header.toLower ≠ hash.toLower
              · simp only [if_pos differs]
                exact List.mem_cons_of_mem _ diverged
              · simp only [if_neg differs]
                exact diverged

end ProtocolExplorer.Reorg
