import ProtocolExplorer.Reorg.Watcher

/-!
# What the reorg watcher may mark

The watcher samples tentative rows, decides by one sampled hash, and marks by block number
alone.  A block that holds rows of several hashes or several finality levels therefore
loses all its canonical rows once one tentative row of it diverges.

* `runOnce_sound_iff` — one iteration is sound exactly when no diverged block holds a
  canonical row that is finalized or has the chain's own hash;
* `watcher_sound_iff` — **a sequence of iterations is sound exactly when every iteration
  finds its diverged blocks clear of such rows**;
* `mixedBlock_not_sound` — a block with a finalized row of the chain's hash and one stale
  tentative row.
-/

set_option autoImplicit false

namespace ProtocolExplorer.Reorg

open ProtocolExplorer.Lib
open ProtocolExplorer.Store

/-- What a row may lose `is_canonical` for: it is not finalized and its own hash is not the
chain's. -/
def MayUnmark (chain : ChainView) (e : RawEvent) : Prop :=
  e.finality ≠ .finalized ∧ chain.differsFrom e

/-- Every row an iteration takes from canonical to non-canonical is one it may mark. -/
def SoundIteration (chain : ChainView) (db : Db) : Prop :=
  List.Forall₂ (fun before after : RawEvent =>
      before.isCanonical = true → after.isCanonical = false → MayUnmark chain before)
    db.rawProtocolEvents (runOnce chain db).1.rawProtocolEvents

/-- A block of the walk window with a tentative canonical row whose hash the chain no longer
serves; the headers of the sampled blocks before it were read. -/
def DivergesAt (chain : ChainView) (db : Db) (blockNumber : ℤ) : Prop :=
  ∃ head ∈ chain.head, ∃ e ∈ sampled head db, e.blockNumber = blockNumber ∧
    chain.differsFrom e ∧
    ∀ earlier ∈ sampled head db, earlier.blockNumber < blockNumber →
      (chain.blockHash earlier.blockNumber).isSome = true

/-- Every canonical row of a diverged block is one the watcher may mark. -/
def UniformDivergence (chain : ChainView) (db : Db) : Prop :=
  ∀ blockNumber, DivergesAt chain db blockNumber →
    ∀ e ∈ db.rawProtocolEvents, e.blockNumber = blockNumber → e.isCanonical = true →
      MayUnmark chain e

theorem mem_storedBlocks {head : ℕ} {db : Db} {block : ℤ × BlockHash} :
    block ∈ storedBlocks head db ↔
      ∃ e ∈ sampled head db, (e.blockNumber, e.blockHash) = block := by
  simp [storedBlocks]

/-- The marked blocks are the diverged ones. -/
theorem mem_markedBlocks {chain : ChainView} {db : Db} {blockNumber : ℤ} :
    blockNumber ∈ markedBlocks chain db ↔ DivergesAt chain db blockNumber := by
  unfold markedBlocks DivergesAt
  cases chain.head with
  | none => simp
  | some head =>
      rw [Option.elim_some, storedBlocks, mem_divergedBlocks (orderBy_pairwise _ _)]
      constructor
      · rintro ⟨stored, member, found, reached⟩
        obtain ⟨e, inSample, same⟩ := mem_storedBlocks.mp member
        cases same
        refine ⟨head, rfl, e, inSample, rfl, found, ?_⟩
        intro earlier earlierIn below
        exact reached _ (mem_storedBlocks.mpr ⟨earlier, earlierIn, rfl⟩) below
      · rintro ⟨head', same, e, inSample, rfl, found, reached⟩
        cases same
        refine ⟨e.blockHash, mem_storedBlocks.mpr ⟨e, inSample, rfl⟩, found, ?_⟩
        intro earlier earlierIn below
        obtain ⟨row, rowIn, rfl⟩ := mem_storedBlocks.mp earlierIn
        exact reached row rowIn below

/-- One iteration is sound exactly when its diverged blocks hold nothing it must keep. -/
theorem runOnce_sound_iff (chain : ChainView) (db : Db) :
    SoundIteration chain db ↔ UniformDivergence chain db := by
  have perRow : SoundIteration chain db ↔ ∀ e ∈ db.rawProtocolEvents, e.isCanonical = true →
      e.blockNumber ∈ markedBlocks chain db → MayUnmark chain e := by
    unfold SoundIteration
    rw [runOnce_rawProtocolEvents, List.forall₂_map_right_iff, List.forall₂_same]
    refine forall₂_congr fun e _ => imp_congr_right fun canonical => ?_
    rw [unmarkAll_isCanonical, canonical]
    simp
  rw [perRow]
  constructor
  · rintro sound blockNumber diverges e member rfl canonical
    exact sound e member canonical (mem_markedBlocks.mpr diverges)
  · intro uniform e member canonical marked
    exact uniform e.blockNumber (mem_markedBlocks.mp marked) e member rfl canonical

/-! ## Sequences of iterations -/

/-- A property of every iteration of a sequence, each at the state the earlier ones left. -/
def EveryIteration (holds : ChainView → Db → Prop) : List ChainView → Db → Prop
  | [], _ => True
  | chain :: later, db => holds chain db ∧ EveryIteration holds later (runOnce chain db).1

theorem everyIteration_congr {holds holds' : ChainView → Db → Prop}
    (same : ∀ chain db, holds chain db ↔ holds' chain db) (snapshots : List ChainView) :
    ∀ db, EveryIteration holds snapshots db ↔ EveryIteration holds' snapshots db := by
  induction snapshots with
  | nil => exact fun _ => Iff.rfl
  | cons chain later inductionHypothesis =>
      intro db
      exact and_congr (same chain db) (inductionHypothesis _)

/-- **The watcher marks only what it may, along any sequence of iterations, exactly when
every iteration finds its diverged blocks uniform.** -/
theorem watcher_sound_iff (snapshots : List ChainView) (db : Db) :
    EveryIteration SoundIteration snapshots db ↔
      EveryIteration UniformDivergence snapshots db :=
  everyIteration_congr runOnce_sound_iff snapshots db

/-! ## A block of mixed rows -/

/-- A ticket redemption stored under the given hash. -/
def redemption (id : ℤ) (blockHash : BlockHash) (finality : Finality) : RawEvent where
  txHash := "0xt"
  logIndex := id.toNat
  blockNumber := 100
  blockHash := blockHash
  blockTimestamp := 0
  contractName := .TicketBroker
  eventName := .WinningTicketRedeemed
  asset := some .ETH
  amountNormalized := some ⟨1⟩
  isValuable := true
  fromAddress := some "0xa"
  toAddress := some "0xb"
  decoded := .none
  amount_of_asset := amount_given
  id := id
  finality := finality
  isCanonical := true
  finalizedAt := if finality = .finalized then some 0 else none

/-- Block 100 holds a finalized row of the chain's hash and a stale tentative one. -/
def mixedBlock : Db :=
  { Db.empty with
    rawProtocolEvents := [redemption 1 "0xnew" .finalized, redemption 2 "0xold" .tentative] }

def mixedBlockView : ChainView := ⟨some 100, fun _ => some "0xnew"⟩

/-- One iteration marks the finalized row, whose hash is the chain's. -/
theorem mixedBlock_not_sound :
    ¬ ∀ snapshots db, EveryIteration SoundIteration snapshots db := by
  intro law
  have sound : SoundIteration mixedBlockView mixedBlock := (law [mixedBlockView] mixedBlock).1
  rw [SoundIteration, runOnce_rawProtocolEvents, List.forall₂_map_right_iff,
    List.forall₂_same] at sound
  have marked := sound (redemption 1 "0xnew" .finalized) (List.mem_cons_self ..) rfl
    (by decide +kernel)
  exact marked.1 rfl

end ProtocolExplorer.Reorg
