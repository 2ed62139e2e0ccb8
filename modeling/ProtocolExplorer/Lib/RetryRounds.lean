import Mathlib

/-!
# Asking again for what is not ready

Items are asked for in rounds.  Each is replied a value, a failure, or that it should be asked
again; the items to be asked again make up the next round.  In the last round asking again is as
bad as a failure, and either ends the rounds without values.  A round may stop at a reply that
ends the rounds.

* `length_rounds_gather` — there are no more rounds than allowed;
* `values_gather_eq_none_iff` — **the rounds end without values exactly after a failure, or when
  the last allowed round has to ask again**;
* `perm_values_gather` — **values come one for each item**, and `values_gather_eq` — each with the
  item it was replied to;
* `gather_all` — what holds of every reply of a round holds of all.
-/

set_option autoImplicit false

namespace ProtocolExplorer.Lib

universe u v w

variable {World : Type u} {Item : Type v} {Value : Type w}

/-- What an item is replied. -/
inductive Reply (Value : Type w) where
  | value (value : Value)
  | again
  | failed
  deriving DecidableEq

/-- The items asked in a round, each with its reply. -/
abbrev Round (Item : Type v) (Value : Type w) := List (Item × Reply Value)

/-- Does a reply end the rounds, when so many more are allowed? -/
def Reply.stops (left : ℕ) : Reply Value → Bool
  | value _ => false
  | again => left == 0
  | failed => true

namespace Round

/-- The items that were replied a value. -/
def values (round : Round Item Value) : List (Item × Value) :=
  round.filterMap fun replied =>
    match replied.2 with
    | .value value => some (replied.1, value)
    | _ => none

/-- The items to ask again. -/
def again (round : Round Item Value) : List Item :=
  round.filterMap fun replied =>
    match replied.2 with
    | .again => some replied.1
    | _ => none

def stops (left : ℕ) (round : Round Item Value) : Bool :=
  round.any fun replied => replied.2.stops left

end Round

/-- What became of some items: the rounds, and the values unless they were given up. -/
structure Gathered (World : Type u) (Item : Type v) (Value : Type w) where
  world : World
  rounds : List (Round Item Value)
  values : Option (List (Item × Value))

/-- Ask for items, when so many rounds more are allowed after this one. -/
abbrev Ask (World : Type u) (Item : Type v) (Value : Type w) :=
  ℕ → World → List Item → World × Round Item Value

/-- A round before others. -/
def Gathered.after (round : Round Item Value) (rest : Gathered World Item Value) :
    Gathered World Item Value :=
  ⟨rest.world, round :: rest.rounds, rest.values.map (round.values ++ ·)⟩

@[simp] theorem Gathered.rounds_after (round : Round Item Value)
    (rest : Gathered World Item Value) : (rest.after round).rounds = round :: rest.rounds := rfl

@[simp] theorem Gathered.values_after (round : Round Item Value)
    (rest : Gathered World Item Value) :
    (rest.after round).values = rest.values.map (round.values ++ ·) := rfl

/-- Ask for items until all have a value. -/
def gather (ask : Ask World Item Value) : ℕ → World → List Item → Gathered World Item Value
  | 0, world, items =>
      let asked := ask 0 world items
      ⟨asked.1, [asked.2], if asked.2.stops 0 then none else some asked.2.values⟩
  | left + 1, world, items =>
      let asked := ask (left + 1) world items
      if asked.2.stops (left + 1) then ⟨asked.1, [asked.2], none⟩
      else if asked.2.again.isEmpty then ⟨asked.1, [asked.2], some asked.2.values⟩
      else (gather ask left asked.1 asked.2.again).after asked.2

/-- A round asks the items in order, and all of them unless a reply ends the rounds. -/
structure AsksInOrder (ask : Ask World Item Value) : Prop where
  asked : ∀ left world items, (ask left world items).2.map Prod.fst <+: items
  complete : ∀ left world items, (ask left world items).2.stops left = false →
    (ask left world items).2.map Prod.fst = items

/-! ## One round -/

section OneRound

variable {round : Round Item Value} {item : Item} {value : Value} {left : ℕ}

@[simp] theorem Round.mem_values : (item, value) ∈ round.values ↔ (item, .value value) ∈ round := by
  simp only [Round.values, List.mem_filterMap, Prod.exists]
  constructor
  · rintro ⟨other, reply, member, own⟩
    cases reply <;> cases own
    exact member
  · exact fun member => ⟨item, .value value, member, rfl⟩

@[simp] theorem Round.mem_again : item ∈ round.again ↔ (item, .again) ∈ round := by
  simp only [Round.again, List.mem_filterMap, Prod.exists]
  constructor
  · rintro ⟨other, reply, member, own⟩
    cases reply <;> cases own
    exact member
  · exact fun member => ⟨item, .again, member, rfl⟩

theorem Round.stops_eq_true : round.stops left = true ↔
    (∃ item, (item, .failed) ∈ round) ∨ left = 0 ∧ ∃ item, (item, .again) ∈ round := by
  simp only [Round.stops, List.any_eq_true, Prod.exists]
  constructor
  · rintro ⟨item, reply, member, ends⟩
    cases reply with
    | value _ => cases ends
    | again => exact Or.inr ⟨eq_of_beq ends, item, member⟩
    | failed => exact Or.inl ⟨item, member⟩
  · rintro (⟨item, member⟩ | ⟨rfl, item, member⟩)
    · exact ⟨item, .failed, member, rfl⟩
    · exact ⟨item, .again, member, rfl⟩

theorem Round.stops_eq_false : round.stops left = false ↔
    (∀ item, (item, .failed) ∉ round) ∧ (left = 0 → ∀ item, (item, .again) ∉ round) := by
  rw [← Bool.not_eq_true, Round.stops_eq_true, not_or, not_exists, not_and, not_exists]

@[simp] theorem Round.stops_cons (item : Item) (reply : Reply Value) (rest : Round Item Value) :
    Round.stops left ((item, reply) :: rest) = (reply.stops left || rest.stops left) := rfl

@[simp] theorem Round.values_cons_value (item : Item) (value : Value)
    (rest : Round Item Value) :
    Round.values ((item, .value value) :: rest) = (item, value) :: rest.values := rfl

@[simp] theorem Round.values_cons_again (item : Item) (rest : Round Item Value) :
    Round.values ((item, .again) :: rest) = rest.values := rfl

@[simp] theorem Round.again_cons_value (item : Item) (value : Value) (rest : Round Item Value) :
    Round.again ((item, .value value) :: rest) = rest.again := rfl

@[simp] theorem Round.again_cons_again (item : Item) (rest : Round Item Value) :
    Round.again ((item, .again) :: rest) = item :: rest.again := rfl

theorem Round.stops_append (first rest : Round Item Value) :
    Round.stops left (first ++ rest) = (first.stops left || rest.stops left) := List.any_append

theorem Round.values_append (first rest : Round Item Value) :
    Round.values (first ++ rest) = first.values ++ rest.values := List.filterMap_append

theorem Round.again_append (first rest : Round Item Value) :
    Round.again (first ++ rest) = first.again ++ rest.again := List.filterMap_append

/-- Without a failure, the items of a round have a value or are asked again. -/
theorem Round.perm_of_not_failed (unfailed : ∀ item, (item, .failed) ∉ round) :
    (round.values.map Prod.fst ++ round.again).Perm (round.map Prod.fst) := by
  induction round with
  | nil => exact List.Perm.refl _
  | cons head rest inductionHypothesis =>
      obtain ⟨item, reply⟩ := head
      have others := inductionHypothesis fun other member =>
        unfailed other (List.mem_cons_of_mem _ member)
      cases reply with
      | value value => exact others.cons item
      | again => exact List.perm_middle.trans (others.cons item)
      | failed => exact absurd (List.mem_cons_self ..) (unfailed item)

end OneRound

/-! ## All rounds -/

section Gather

variable {ask : Ask World Item Value}

/-- Induction over the rounds: one ends them, or has all values, or is followed by others. -/
theorem gather_induction {motive : ℕ → World → List Item → Gathered World Item Value → Prop}
    (stopped : ∀ left world items world' round, ask left world items = (world', round) →
      round.stops left = true → motive left world items ⟨world', [round], none⟩)
    (done : ∀ left world items world' round, ask left world items = (world', round) →
      round.stops left = false → round.again = [] →
      motive left world items ⟨world', [round], some round.values⟩)
    (more : ∀ left world items world' round, ask (left + 1) world items = (world', round) →
      round.stops (left + 1) = false → round.again ≠ [] →
      motive left world' round.again (gather ask left world' round.again) →
      motive (left + 1) world items ((gather ask left world' round.again).after round))
    (left : ℕ) (world : World) (items : List Item) :
    motive left world items (gather ask left world items) := by
  induction left generalizing world items with
  | zero =>
      rcases asked : ask 0 world items with ⟨world', round⟩
      rw [gather, asked]
      cases ends : round.stops 0 with
      | true => exact stopped 0 world items world' round asked ends
      | false =>
          have nothing : round.again = [] := List.eq_nil_iff_forall_not_mem.mpr fun item member =>
            (Round.stops_eq_false.mp ends).2 rfl item (Round.mem_again.mp member)
          exact done 0 world items world' round asked ends nothing
  | succ left inductionHypothesis =>
      rcases asked : ask (left + 1) world items with ⟨world', round⟩
      rw [gather, asked]
      dsimp only
      split_ifs with ends finished
      · exact stopped _ world items world' round asked ends
      · exact done _ world items world' round asked (Bool.eq_false_iff.mpr ends)
          (List.isEmpty_iff.mp finished)
      · refine more left world items world' round asked (Bool.eq_false_iff.mpr ends) ?_
          (inductionHypothesis world' round.again)
        exact fun nothing => finished (List.isEmpty_iff.mpr nothing)

variable (ask) (left : ℕ) (world : World) (items : List Item)

theorem length_rounds_gather : (gather ask left world items).rounds.length ≤ left + 1 := by
  refine gather_induction (motive := fun left _ _ run => run.rounds.length ≤ left + 1)
    ?_ ?_ ?_ left world items
  · exact fun left _ _ _ _ _ _ => Nat.le_add_left 1 left
  · exact fun left _ _ _ _ _ _ _ => Nat.le_add_left 1 left
  · exact fun left _ _ _ _ _ _ _ within => Nat.succ_le_succ within

theorem rounds_gather_ne_nil : (gather ask left world items).rounds ≠ [] := by
  refine gather_induction (motive := fun _ _ _ run => run.rounds ≠ []) ?_ ?_ ?_ left world items
  · exact fun _ _ _ _ _ _ _ => List.cons_ne_nil _ _
  · exact fun _ _ _ _ _ _ _ _ => List.cons_ne_nil _ _
  · exact fun _ _ _ _ _ _ _ _ _ => List.cons_ne_nil _ _

/-- The rounds are given up after a failure, or if the last allowed one has to ask again. -/
theorem values_gather_eq_none_iff : (gather ask left world items).values = none ↔
    (∃ round ∈ (gather ask left world items).rounds, ∃ item, (item, .failed) ∈ round) ∨
      (gather ask left world items).rounds.length = left + 1 ∧
        ∃ round ∈ (gather ask left world items).rounds.getLast?, ∃ item, (item, .again) ∈ round := by
  refine gather_induction (motive := fun left _ _ run => run.values = none ↔
    (∃ round ∈ run.rounds, ∃ item, (item, .failed) ∈ round) ∨ run.rounds.length = left + 1 ∧
      ∃ round ∈ run.rounds.getLast?, ∃ item, (item, .again) ∈ round) ?_ ?_ ?_ left world items
  · intro left _ _ _ round _ stops
    refine iff_of_true rfl ?_
    rcases Round.stops_eq_true.mp stops with failed | ⟨rfl, again⟩
    · exact Or.inl ⟨round, List.mem_singleton_self round, failed⟩
    · exact Or.inr ⟨rfl, round, rfl, again⟩
  · intro left _ _ _ round _ continues finished
    refine iff_of_false (Option.some_ne_none _) ?_
    rintro (⟨other, member, item, failed⟩ | ⟨_, other, last, item, again⟩)
    · rw [List.mem_singleton.mp member] at failed
      exact (Round.stops_eq_false.mp continues).1 item failed
    · cases last
      exact List.eq_nil_iff_forall_not_mem.mp finished item (Round.mem_again.mpr again)
  · intro left _ _ world' round _ continues _ inductionHypothesis
    have unfailed := (Round.stops_eq_false.mp continues).1
    have others := rounds_gather_ne_nil ask left world' round.again
    rw [Gathered.values_after, Gathered.rounds_after, Option.map_eq_none_iff, inductionHypothesis]
    generalize gather ask left world' round.again = rest at others
    refine or_congr ?_ (and_congr ?_ ?_)
    · rw [List.exists_mem_cons_iff, or_iff_right fun failed => unfailed _ failed.choose_spec]
    · rw [List.length_cons, Nat.add_left_inj]
    · rw [List.getLast?_cons_of_ne_nil others]

variable {ask left world items} {gathered : List (Item × Value)}

/-- The values are those of the rounds. -/
theorem values_gather_eq (completed : (gather ask left world items).values = some gathered) :
    gathered = (gather ask left world items).rounds.flatMap Round.values := by
  revert gathered
  refine gather_induction (motive := fun _ _ _ run => ∀ {gathered}, run.values = some gathered →
    gathered = run.rounds.flatMap Round.values) ?_ ?_ ?_ left world items
  · rintro _ _ _ _ _ _ _ _ ⟨⟩
  · rintro _ _ _ _ round _ _ _ _ ⟨⟩
    exact List.append_nil round.values |>.symm
  · intro _ _ _ _ round _ _ _ inductionHypothesis gathered completed
    obtain ⟨others, fromOthers, rfl⟩ := Option.map_eq_some_iff.mp completed
    rw [Gathered.rounds_after, List.flatMap_cons, ← inductionHypothesis fromOthers]

/-- A value was replied to its item. -/
theorem mem_of_values_gather (completed : (gather ask left world items).values = some gathered)
    {item : Item} {value : Value} (member : (item, value) ∈ gathered) :
    ∃ round ∈ (gather ask left world items).rounds, (item, .value value) ∈ round := by
  rw [values_gather_eq completed] at member
  obtain ⟨round, listed, own⟩ := List.mem_flatMap.mp member
  exact ⟨round, listed, Round.mem_values.mp own⟩

/-- **Each item has one value.** -/
theorem perm_values_gather (inOrder : AsksInOrder ask)
    (completed : (gather ask left world items).values = some gathered) :
    (gathered.map Prod.fst).Perm items := by
  have answered : ∀ {left world items world'} {round : Round Item Value},
      ask left world items = (world', round) → round.stops left = false →
      (round.values.map Prod.fst ++ round.again).Perm items := by
    intro left world items world' round asked continues
    have complete := inOrder.complete left world items
    rw [asked] at complete
    rw [← complete continues]
    exact Round.perm_of_not_failed (Round.stops_eq_false.mp continues).1
  revert gathered
  refine gather_induction (motive := fun _ _ items run => ∀ {gathered},
    run.values = some gathered → (gathered.map Prod.fst).Perm items) ?_ ?_ ?_ left world items
  · rintro _ _ _ _ _ _ _ _ ⟨⟩
  · rintro _ _ items _ round asked continues finished _ ⟨⟩
    have all := answered asked continues
    rwa [finished, List.append_nil] at all
  · intro _ _ items _ round asked continues _ inductionHypothesis gathered completed
    obtain ⟨others, fromOthers, rfl⟩ := Option.map_eq_some_iff.mp completed
    rw [List.map_append]
    exact ((inductionHypothesis fromOthers).append_left _).trans (answered asked continues)

/-- What asking keeps of the world, and what holds of every reply then. -/
theorem gather_all (inOrder : AsksInOrder ask) {inv : World → Prop} {wanted : Item → Prop}
    {holds : Item → Reply Value → Prop}
    (keeps : ∀ left world items, inv world → (∀ item ∈ items, wanted item) →
      inv (ask left world items).1 ∧ ∀ replied ∈ (ask left world items).2, holds replied.1 replied.2)
    (start : inv world) (all : ∀ item ∈ items, wanted item) :
    inv (gather ask left world items).world ∧
      ∀ round ∈ (gather ask left world items).rounds, ∀ replied ∈ round,
        holds replied.1 replied.2 := by
  revert start all
  refine gather_induction (motive := fun _ world items run => inv world →
    (∀ item ∈ items, wanted item) → inv run.world ∧ ∀ round ∈ run.rounds, ∀ replied ∈ round,
      holds replied.1 replied.2) ?_ ?_ ?_ left world items
  · intro left world items world' round asked _ start all
    have kept := keeps left world items start all
    rw [asked] at kept
    exact ⟨kept.1, List.forall_mem_singleton.mpr kept.2⟩
  · intro left world items world' round asked _ _ start all
    have kept := keeps left world items start all
    rw [asked] at kept
    exact ⟨kept.1, List.forall_mem_singleton.mpr kept.2⟩
  · intro left world items world' round asked _ _ inductionHypothesis start all
    have kept := keeps (left + 1) world items start all
    have listed := (inOrder.asked (left + 1) world items).subset
    rw [asked] at kept listed
    have others := inductionHypothesis kept.1 fun item member =>
      all item (listed (List.mem_map_of_mem (Round.mem_again.mp member)))
    exact ⟨others.1, List.forall_mem_cons.mpr ⟨kept.2, others.2⟩⟩

end Gather

end ProtocolExplorer.Lib
