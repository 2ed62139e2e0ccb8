import ProtocolExplorer.Store.Database

/-!
# Inserting events

`insert_events` stores decoded rows as tentative and canonical, and skips a row whose
`(tx_hash, log_index)` is already stored, whatever the stored row says.  Ids come from a
serial column: they are drawn when a row is offered and become visible when the writing
transaction commits, so concurrent backfills may make them visible in any order.  The
ids are therefore part of what is inserted.

`mem_insertEvents` describes the rows afterwards, `exists_insertEvents_eq_append` says that an
insert only appends, and `idsValid_insertEvents` that ids stay positive and distinct.
-/

set_option autoImplicit false

namespace ProtocolExplorer.Indexer

open ProtocolExplorer.Store

/-- Decoded rows with the ids drawn for them. -/
abbrev NumberedRows := List (ℤ × PreparedRow)

/-- The unique key of a decoded row. -/
def preparedKey (row : PreparedRow) : TxHash × ℕ := (row.txHash, row.logIndex)

/-- One `INSERT … ON CONFLICT (chain_id, tx_hash, log_index) DO NOTHING`. -/
def insertEvent (events : List RawEvent) (row : ℤ × PreparedRow) : List RawEvent :=
  if events.any fun e => decide (e.logKey = preparedKey row.2) then events
  else events ++ [row.2.stored row.1]

/-- `insert_events`. -/
def insertEvents (rows : NumberedRows) (events : List RawEvent) : List RawEvent :=
  rows.foldl insertEvent events

/-- The ids drawn for a batch are positive, unused and distinct. -/
def freshIds (rows : NumberedRows) (events : List RawEvent) : Prop :=
  (rows.map Prod.fst).Nodup ∧
    ∀ row ∈ rows, 0 < row.1 ∧ ∀ e ∈ events, e.id ≠ row.1

instance (rows : NumberedRows) (events : List RawEvent) : Decidable (freshIds rows events) :=
  inferInstanceAs (Decidable (_ ∧ _))

theorem insertEvent_cases (events : List RawEvent) (row : ℤ × PreparedRow) :
    (insertEvent events row = events ∧ ∃ e ∈ events, e.logKey = preparedKey row.2) ∨
      (insertEvent events row = events ++ [row.2.stored row.1] ∧
        ∀ e ∈ events, e.logKey ≠ preparedKey row.2) := by
  unfold insertEvent
  split
  · next conflict =>
      obtain ⟨e, member, same⟩ := List.any_eq_true.mp conflict
      exact Or.inl ⟨rfl, e, member, of_decide_eq_true same⟩
  · next free =>
      refine Or.inr ⟨rfl, fun e member same => free (List.any_eq_true.mpr ⟨e, member, ?_⟩)⟩
      exact decide_eq_true same

/-- An insert appends tentative rows. -/
theorem exists_insertEvents_eq_append (rows : NumberedRows) (events : List RawEvent) :
    ∃ new : List RawEvent, insertEvents rows events = events ++ new ∧
      ∀ e ∈ new, e.finality = .tentative := by
  induction rows generalizing events with
  | nil => exact ⟨[], (List.append_nil _).symm, fun _ member => absurd member List.not_mem_nil⟩
  | cons row rest inductionHypothesis =>
      obtain ⟨new, appended, tentative⟩ := inductionHypothesis (insertEvent events row)
      rcases insertEvent_cases events row with ⟨same, _⟩ | ⟨inserted, _⟩
      · rw [same] at appended
        exact ⟨new, by rw [insertEvents, List.foldl_cons, same]; exact appended, tentative⟩
      · rw [inserted, List.append_assoc] at appended
        refine ⟨row.2.stored row.1 :: new, ?_, fun e member => ?_⟩
        · rw [insertEvents, List.foldl_cons, inserted]
          exact appended
        · rcases List.mem_cons.mp member with rfl | later
          · rfl
          · exact tentative e later

/-- A row present after an insert was there before or is one of the offered rows. -/
theorem mem_insertEvents {rows : NumberedRows} {events : List RawEvent} {e : RawEvent}
    (present : e ∈ insertEvents rows events) :
    e ∈ events ∨ ∃ row ∈ rows, e = row.2.stored row.1 := by
  induction rows generalizing events with
  | nil => exact Or.inl present
  | cons row rest inductionHypothesis =>
      have split : e ∈ insertEvent events row ∨ ∃ other ∈ rest, e = other.2.stored other.1 :=
        inductionHypothesis present
      rcases split with earlier | later
      · rcases insertEvent_cases events row with ⟨same, _⟩ | ⟨appended, _⟩
        · rw [same] at earlier
          exact Or.inl earlier
        · rw [appended] at earlier
          rcases List.mem_append.mp earlier with stored | new
          · exact Or.inl stored
          · exact Or.inr ⟨row, List.mem_cons_self .., List.mem_singleton.mp new⟩
      · obtain ⟨other, member, same⟩ := later
        exact Or.inr ⟨other, List.mem_cons_of_mem _ member, same⟩

/-- The key of an offered row is stored afterwards. -/
theorem exists_logKey_insertEvents {rows : NumberedRows} (events : List RawEvent)
    {row : ℤ × PreparedRow} (offered : row ∈ rows) :
    ∃ e ∈ insertEvents rows events, e.logKey = preparedKey row.2 := by
  induction rows generalizing events with
  | nil => exact absurd offered List.not_mem_nil
  | cons head rest inductionHypothesis =>
      rcases List.mem_cons.mp offered with rfl | later
      · have here : ∃ e ∈ insertEvent events row, e.logKey = preparedKey row.2 := by
          rcases insertEvent_cases events row with ⟨same, present⟩ | ⟨appended, _⟩
          · rw [same]
            exact present
          · rw [appended]
            exact ⟨_, List.mem_append_right _ (List.mem_singleton.mpr rfl), rfl⟩
        obtain ⟨e, inserted, same⟩ := here
        obtain ⟨new, kept, _⟩ := exists_insertEvents_eq_append rest (insertEvent events row)
        refine ⟨e, ?_, same⟩
        show e ∈ insertEvents rest (insertEvent events row)
        rw [kept]
        exact List.mem_append_left new inserted
      · exact inductionHypothesis _ later

/-- The primary key of the table: ids are positive and distinct. -/
structure IdsValid (events : List RawEvent) : Prop where
  nodup : (events.map (·.id)).Nodup
  positive : ∀ e ∈ events, 0 < e.id

theorem IdsValid.eq_of_id_eq {events : List RawEvent} (valid : IdsValid events)
    {e e' : RawEvent} (member : e ∈ events) (member' : e' ∈ events) (same : e.id = e'.id) :
    e = e' :=
  List.inj_on_of_nodup_map valid.nodup member member' same

theorem idsValid_insertEvents {rows : NumberedRows} {events : List RawEvent}
    (fresh : freshIds rows events) (valid : IdsValid events) :
    IdsValid (insertEvents rows events) := by
  induction rows generalizing events with
  | nil => exact valid
  | cons row rest inductionHypothesis =>
      obtain ⟨distinct, unused⟩ := fresh
      have newest := List.nodup_cons.mp distinct
      have rest_unused := fun other member => unused other (List.mem_cons_of_mem row member)
      rcases insertEvent_cases events row with ⟨same, _⟩ | ⟨appended, _⟩
      · rw [insertEvents, List.foldl_cons, same]
        exact inductionHypothesis ⟨newest.2, rest_unused⟩ valid
      · rw [insertEvents, List.foldl_cons, appended]
        have own := unused row (List.mem_cons_self ..)
        refine inductionHypothesis ⟨newest.2, fun other member => ?_⟩ ⟨?_, ?_⟩
        · refine ⟨(rest_unused other member).1, fun e stored => ?_⟩
          rcases List.mem_append.mp stored with old | new
          · exact (rest_unused other member).2 e old
          · rw [List.mem_singleton.mp new]
            intro same
            have reused : row.1 = other.1 := same
            exact newest.1 (reused ▸ List.mem_map_of_mem member)
        · rw [List.map_append]
          refine List.nodup_append.mpr ⟨valid.nodup, List.nodup_singleton _, ?_⟩
          intro id old id' new
          obtain ⟨e, stored, rfl⟩ := List.mem_map.mp old
          rw [List.mem_singleton.mp new]
          exact own.2 e stored
        · intro e stored
          rcases List.mem_append.mp stored with old | new
          · exact valid.positive e old
          · rw [List.mem_singleton.mp new]
            exact own.1

/-- A map that keeps ids keeps their validity. -/
theorem IdsValid.map {events : List RawEvent} (valid : IdsValid events)
    {update : RawEvent → RawEvent} (keeps : ∀ e, (update e).id = e.id) :
    IdsValid (events.map update) := by
  refine ⟨?_, ?_⟩
  · rw [List.map_map]
    have same : ((fun e : RawEvent => e.id) ∘ update) = fun e => e.id := funext keeps
    rw [same]
    exact valid.nodup
  · intro e member
    obtain ⟨old, stored, rfl⟩ := List.mem_map.mp member
    rw [keeps]
    exact valid.positive old stored

end ProtocolExplorer.Indexer
