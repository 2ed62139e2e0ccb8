import ProtocolExplorer.Lib.OrderedBatch
import ProtocolExplorer.Lib.Transition

/-!
# Pages from a checkpoint on, the checkpoint included

A walk takes the first rows from its checkpoint on, up to a limit, and moves the checkpoint to the
block of the last row.  The next page starts at that block again, so no block is split between two
walks; a page below the limit is the end.

* `remaining_lt` — a full page with rows of two blocks leaves fewer rows to read;
* `not_short_of_fullBlock` — a block that fills a page is never left;
* `exists_short_iff` — **the walk reaches a short page exactly if no block from the checkpoint on
  fills a page.**
-/

set_option autoImplicit false

namespace ProtocolExplorer.Lib

universe u v w

variable {Row : Type u} {Key : Type v} {Block : Type w} [LinearOrder Key] [LinearOrder Block]

/-- The rows from a checkpoint on. -/
def fromCheckpoint (block : Row → Block) (rows : List Row) (checkpoint : Option Block) : List Row :=
  rows.filter fun row => checkpoint.all fun from_ => decide (from_ ≤ block row)

/-- The rows of one block. -/
def rowsIn (block : Row → Block) (rows : List Row) (b : Block) : List Row :=
  rows.filter fun row => decide (block row = b)

/-- The first rows from a checkpoint on. -/
def inclusivePage (key : Row → Key) (block : Row → Block) (limit : ℕ) (rows : List Row)
    (checkpoint : Option Block) : List Row :=
  orderedBatch key limit (fromCheckpoint block rows checkpoint)

/-- `GREATEST` of a checkpoint and a block. -/
def raised (checkpoint : Option Block) (reached : Block) : Block :=
  checkpoint.elim reached fun previous => max previous reached

/-- The checkpoint after a page: the block of its last row. -/
def nextCheckpoint (key : Row → Key) (block : Row → Block) (limit : ℕ) (rows : List Row)
    (checkpoint : Option Block) : Option Block :=
  match (inclusivePage key block limit rows checkpoint).getLast? with
  | none => checkpoint
  | some last => some (raised checkpoint (block last))

/-- No block from the checkpoint on fills a page. -/
def RoomFrom (block : Row → Block) (limit : ℕ) (rows : List Row) (checkpoint : Option Block) :
    Prop :=
  ∀ b, (∀ from_ ∈ checkpoint, from_ ≤ b) → (rowsIn block rows b).length < limit

section

variable {key : Row → Key} {block : Row → Block} {limit : ℕ} {rows : List Row}
  {checkpoint : Option Block}

theorem mem_fromCheckpoint {row : Row} :
    row ∈ fromCheckpoint block rows checkpoint ↔
      row ∈ rows ∧ ∀ from_ ∈ checkpoint, from_ ≤ block row := by
  cases checkpoint <;> simp [fromCheckpoint]

theorem le_raised {reached : Block} : ∀ from_ ∈ checkpoint, from_ ≤ raised checkpoint reached := by
  intro from_ isCheckpoint
  rw [Option.mem_def] at isCheckpoint
  rw [isCheckpoint]
  exact le_max_left _ _

theorem reached_le_raised (reached : Block) : reached ≤ raised checkpoint reached := by
  cases checkpoint with
  | none => exact le_refl _
  | some previous => exact le_max_right _ _

/-- The last row of a page is in a block from the checkpoint on. -/
theorem raised_of_mem {row : Row} (member : row ∈ fromCheckpoint block rows checkpoint) :
    raised checkpoint (block row) = block row := by
  cases checkpoint with
  | none => rfl
  | some previous => exact max_eq_right ((mem_fromCheckpoint.mp member).2 previous rfl)

/-- The checkpoint does not move back. -/
theorem le_nextCheckpoint {b : Block}
    (above : ∀ to_ ∈ nextCheckpoint key block limit rows checkpoint, to_ ≤ b) :
    ∀ from_ ∈ checkpoint, from_ ≤ b := by
  unfold nextCheckpoint at above
  split at above
  · exact above
  · exact fun from_ isCheckpoint => (le_raised from_ isCheckpoint).trans (above _ rfl)

/-- Room stays. -/
theorem RoomFrom.next (room : RoomFrom block limit rows checkpoint) :
    RoomFrom block limit rows (nextCheckpoint key block limit rows checkpoint) :=
  fun b above => room b (le_nextCheckpoint above)

theorem RoomFrom.iterate (room : RoomFrom block limit rows checkpoint) (n : ℕ) :
    RoomFrom block limit rows ((nextCheckpoint key block limit rows)^[n] checkpoint) := by
  induction n with
  | zero => exact room
  | succ n inductionHypothesis =>
      rw [Function.iterate_succ_apply']
      exact inductionHypothesis.next

/-- Pages are not empty where there is room for a block in them. -/
theorem RoomFrom.positive [Nonempty Block] (room : RoomFrom block limit rows checkpoint) :
    0 < limit := by
  cases checkpoint with
  | none => exact Nat.zero_lt_of_lt (room (Classical.arbitrary Block) nofun)
  | some from_ => exact Nat.zero_lt_of_lt (room from_ fun _ same => (Option.some.inj same).ge)

theorem inclusivePage_pairwise :
    (inclusivePage key block limit rows checkpoint).Pairwise fun a b => key a ≤ key b :=
  (orderBy_pairwise key _).sublist (List.take_sublist _ _)

theorem length_inclusivePage (full : limit ≤ (fromCheckpoint block rows checkpoint).length) :
    (inclusivePage key block limit rows checkpoint).length = limit := by
  rw [inclusivePage, orderedBatch, List.length_take, (orderBy_perm key _).length_eq]
  exact min_eq_left full

/-- A block holds all of its rows in a page. -/
theorem filter_inclusivePage_le (b : Block) :
    ((inclusivePage key block limit rows checkpoint).filter
      fun row => decide (block row = b)).length ≤ (rowsIn block rows b).length := by
  calc ((inclusivePage key block limit rows checkpoint).filter
        fun row => decide (block row = b)).length
      ≤ ((orderBy key (fromCheckpoint block rows checkpoint)).filter
          fun row => decide (block row = b)).length :=
        ((List.take_sublist _ _).filter _).length_le
    _ = ((fromCheckpoint block rows checkpoint).filter fun row => decide (block row = b)).length :=
        ((orderBy_perm key _).filter _).length_eq
    _ ≤ (rowsIn block rows b).length := (List.filter_sublist.filter _).length_le

/-- What is read after a later checkpoint was read before. -/
theorem fromCheckpoint_some {b : Block} (later : ∀ from_ ∈ checkpoint, from_ ≤ b) :
    fromCheckpoint block rows (some b) =
      (fromCheckpoint block rows checkpoint).filter fun row => decide (b ≤ block row) := by
  rw [fromCheckpoint, fromCheckpoint, List.filter_filter]
  refine List.filter_congr fun row _ => ?_
  cases checkpoint with
  | none => simp
  | some from_ =>
      by_cases above : b ≤ block row
      · simp [above, (later from_ rfl).trans above]
      · simp [above]

/-- A block from the checkpoint on is read whole. -/
theorem filter_fromCheckpoint {b : Block} (above : ∀ from_ ∈ checkpoint, from_ ≤ b) :
    ((fromCheckpoint block rows checkpoint).filter fun row => decide (block row = b)) =
      rowsIn block rows b := by
  rw [fromCheckpoint, rowsIn, List.filter_filter]
  refine List.filter_congr fun row _ => ?_
  by_cases same : block row = b
  · cases checkpoint with
    | none => simp
    | some from_ => simp [same, above from_ rfl]
  · simp [same]

/-- A page is full if a block from the checkpoint on fills it. -/
theorem full_of_fullBlock {b : Block} (fills : limit ≤ (rowsIn block rows b).length)
    (above : ∀ from_ ∈ checkpoint, from_ ≤ b) :
    limit ≤ (fromCheckpoint block rows checkpoint).length := by
  rw [← filter_fromCheckpoint above] at fills
  exact fills.trans (List.length_filter_le _ _)

section Pages

variable (follows : ∀ a b, key a ≤ key b → block a ≤ block b)
include follows

/-- No row of a page is in a later block than its last row. -/
theorem block_le_last {last row : Row}
    (isLast : (inclusivePage key block limit rows checkpoint).getLast? = some last)
    (member : row ∈ inclusivePage key block limit rows checkpoint) : block row ≤ block last := by
  have sorted : (inclusivePage key block limit rows checkpoint).Pairwise fun a b => key a ≤ key b :=
    inclusivePage_pairwise
  obtain ⟨before, split⟩ := List.getLast?_eq_some_iff.mp isLast
  rw [split] at sorted member
  rcases List.mem_append.mp member with earlier | same
  · exact follows _ _
      ((List.pairwise_append.mp sorted).2.2 row earlier last (List.mem_singleton_self _))
  · rw [List.mem_singleton.mp same]

/-- With room, not all rows of a full page are in its last block. -/
theorem exists_earlier {last : Row} (room : RoomFrom block limit rows checkpoint)
    (full : limit ≤ (fromCheckpoint block rows checkpoint).length)
    (isLast : (inclusivePage key block limit rows checkpoint).getLast? = some last) :
    ∃ row ∈ inclusivePage key block limit rows checkpoint, block row < block last := by
  by_contra none
  have oneBlock : (inclusivePage key block limit rows checkpoint).filter
      (fun row => decide (block row = block last)) =
        inclusivePage key block limit rows checkpoint := by
    refine List.filter_eq_self.mpr fun row member => decide_eq_true (le_antisymm ?_ ?_)
    · exact block_le_last follows isLast member
    · exact not_lt.mp fun earlier => none ⟨row, member, earlier⟩
  have within : ((inclusivePage key block limit rows checkpoint).filter
      fun row => decide (block row = block last)).length ≤ (rowsIn block rows (block last)).length :=
    filter_inclusivePage_le (block last)
  rw [oneBlock, length_inclusivePage full] at within
  have read := (mem_fromCheckpoint.mp (mem_of_mem_orderedBatch (List.mem_of_getLast? isLast))).2
  exact absurd (room (block last) read) (not_lt.mpr within)

/-- **A full page leaves fewer rows to read**, unless one block fills it. -/
theorem remaining_lt (positive : 0 < limit) (room : RoomFrom block limit rows checkpoint)
    (full : limit ≤ (fromCheckpoint block rows checkpoint).length) :
    (fromCheckpoint block rows (nextCheckpoint key block limit rows checkpoint)).length <
      (fromCheckpoint block rows checkpoint).length := by
  cases isLast : (inclusivePage key block limit rows checkpoint).getLast? with
  | none =>
      have empty : (inclusivePage key block limit rows checkpoint).length = limit :=
        length_inclusivePage full
      rw [List.getLast?_eq_none_iff.mp isLast, List.length_nil] at empty
      omega
  | some last =>
      have lastRow := mem_of_mem_orderedBatch (List.mem_of_getLast? isLast)
      obtain ⟨row, member, earlier⟩ := exists_earlier follows room full isLast
      have next : nextCheckpoint key block limit rows checkpoint = some (block last) := by
        rw [nextCheckpoint, isLast]
        exact congrArg some (raised_of_mem lastRow)
      rw [next, fromCheckpoint_some (mem_fromCheckpoint.mp lastRow).2,
        List.length_filter_lt_length_iff_exists]
      exact ⟨row, mem_of_mem_orderedBatch member, by simpa using earlier⟩

/-- **A page does not pass a block that fills it.** -/
theorem nextCheckpoint_le {b : Block} (fills : limit ≤ (rowsIn block rows b).length)
    (above : ∀ from_ ∈ checkpoint, from_ ≤ b) :
    ∀ to_ ∈ nextCheckpoint key block limit rows checkpoint, to_ ≤ b := by
  unfold nextCheckpoint
  cases isLast : (inclusivePage key block limit rows checkpoint).getLast? with
  | none => exact above
  | some last =>
      have lastInPage := List.mem_of_getLast? isLast
      intro to_ isNext
      obtain rfl := Option.some.inj isNext
      rw [raised_of_mem (mem_of_mem_orderedBatch lastInPage)]
      by_contra past
      -- the rows of the block come before the last row of the page, so all of them are in it
      have notAfter : ((orderBy key (fromCheckpoint block rows checkpoint)).drop limit).filter
          (fun row => decide (block row = b)) = [] := by
        refine List.filter_eq_nil_iff.mpr fun row dropped => ?_
        have sorted := orderBy_pairwise key (fromCheckpoint block rows checkpoint)
        rw [← List.take_append_drop limit (orderBy key _)] at sorted
        have later := follows _ _ ((List.pairwise_append.mp sorted).2.2 last lastInPage row dropped)
        simpa using fun same : block row = b => past (same ▸ later)
      have whole : ((inclusivePage key block limit rows checkpoint).filter
          fun row => decide (block row = b)).length = (rowsIn block rows b).length := by
        have split := List.take_append_drop limit (orderBy key (fromCheckpoint block rows checkpoint))
        rw [← filter_fromCheckpoint above,
          ← ((orderBy_perm key (fromCheckpoint block rows checkpoint)).filter _).length_eq, ← split,
          List.filter_append, notAfter, List.append_nil]
        rfl
      have short : (inclusivePage key block limit rows checkpoint).length ≤ limit :=
        List.length_take_le _ _
      have oneBlock := List.length_filter_eq_length_iff.mp
        (le_antisymm (List.length_filter_le (fun row => decide (block row = b))
          (inclusivePage key block limit rows checkpoint)) (by omega))
      have same : block last = b := by simpa using oneBlock last lastInPage
      exact past same.le

/-- **A block that fills a page is never left.** -/
theorem not_short_of_fullBlock {b : Block} (fills : limit ≤ (rowsIn block rows b).length)
    (above : ∀ from_ ∈ checkpoint, from_ ≤ b) (n : ℕ) :
    limit ≤ (fromCheckpoint block rows
      ((nextCheckpoint key block limit rows)^[n] checkpoint)).length := by
  have kept : ∀ from_ ∈ (nextCheckpoint key block limit rows)^[n] checkpoint, from_ ≤ b := by
    induction n with
    | zero => exact above
    | succ n inductionHypothesis =>
        rw [Function.iterate_succ_apply']
        exact nextCheckpoint_le follows fills inductionHypothesis
  exact full_of_fullBlock fills kept

/-- **The walk reaches a short page exactly if no block from the checkpoint on fills a page.** -/
theorem exists_short_iff [Nonempty Block] :
    (∃ n, (fromCheckpoint block rows
        ((nextCheckpoint key block limit rows)^[n] checkpoint)).length < limit) ↔
      RoomFrom block limit rows checkpoint := by
  constructor
  · rintro ⟨n, short⟩ b above
    by_contra fills
    exact absurd short (not_lt.mpr (not_short_of_fullBlock follows (not_lt.mp fills) above n))
  · intro room
    have progress : ∀ from_, RoomFrom block limit rows from_ →
        (fromCheckpoint block rows from_).length < limit ∨
          RoomFrom block limit rows (nextCheckpoint key block limit rows from_) ∧
            (fromCheckpoint block rows (nextCheckpoint key block limit rows from_)).length <
              (fromCheckpoint block rows from_).length := by
      intro from_ here
      rcases lt_or_ge (fromCheckpoint block rows from_).length limit with short | full
      · exact .inl short
      · exact .inr ⟨here.next, remaining_lt follows here.positive here full⟩
    exact @exists_iterate_of_decreasing _ (nextCheckpoint key block limit rows) _ _
      (fun from_ => (fromCheckpoint block rows from_).length) progress _ room

end Pages

end

end ProtocolExplorer.Lib
