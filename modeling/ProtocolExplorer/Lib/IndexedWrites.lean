import Mathlib

/-!
# Writing results back to their positions

Results that arrive with a position are written into a list of slots one after another.
The last result for a position decides (`getElem?_writeAll_eq_last`).
When all results for one position agree, the order in which they arrive does not matter:
`getElem?_writeAll` says what a slot holds afterwards, and `writeAll_eq_of_agrees` that slots
which are all written, or were right before, end up right.
-/

set_option autoImplicit false

namespace ProtocolExplorer.Lib

universe u

variable {Slot : Type u}

/-- Write values at their positions; a position outside the list is ignored. -/
def writeAll (writes : List (ℕ × Slot)) (slots : List Slot) : List Slot :=
  writes.foldl (fun written write => written.set write.1 write.2) slots

@[simp] theorem length_writeAll (writes : List (ℕ × Slot)) (slots : List Slot) :
    (writeAll writes slots).length = slots.length := by
  induction writes generalizing slots with
  | nil => rfl
  | cons write rest inductionHypothesis =>
      rw [writeAll, List.foldl_cons]
      exact (inductionHypothesis _).trans List.length_set

/-- Positions that nothing is written to keep their value. -/
theorem getElem?_writeAll_of_notMem {writes : List (ℕ × Slot)} {position : ℕ}
    (untouched : ∀ write ∈ writes, write.1 ≠ position) (slots : List Slot) :
    (writeAll writes slots)[position]? = slots[position]? := by
  induction writes generalizing slots with
  | nil => rfl
  | cons write rest inductionHypothesis =>
      rw [writeAll, List.foldl_cons]
      refine (inductionHypothesis (fun w member => untouched w (List.mem_cons_of_mem _ member))
        _).trans ?_
      exact List.getElem?_set_ne (untouched write (List.mem_cons_self ..))

/-- A position that is written, always with one value, holds it. -/
theorem getElem?_writeAll {writes : List (ℕ × Slot)} {position : ℕ} {value : Slot}
    (agree : ∀ write ∈ writes, write.1 = position → write.2 = value)
    (written : ∃ write ∈ writes, write.1 = position) {slots : List Slot}
    (inside : position < slots.length) :
    (writeAll writes slots)[position]? = some value := by
  induction writes generalizing slots with
  | nil =>
      obtain ⟨_, member, _⟩ := written
      exact absurd member List.not_mem_nil
  | cons write rest inductionHypothesis =>
      rw [writeAll, List.foldl_cons]
      have insideStill : position < (slots.set write.1 write.2).length := by
        rwa [List.length_set]
      by_cases later : ∃ w ∈ rest, w.1 = position
      · exact inductionHypothesis (fun w member => agree w (List.mem_cons_of_mem _ member)) later
          insideStill
      · have untouched : ∀ w ∈ rest, w.1 ≠ position :=
          fun w member same => later ⟨w, member, same⟩
        refine (getElem?_writeAll_of_notMem untouched _).trans ?_
        obtain ⟨w, member, same⟩ := written
        rcases List.mem_cons.mp member with rfl | tail
        · rw [← same, List.getElem?_set_self (same ▸ inside),
            agree w (List.mem_cons_self ..) same]
        · exact absurd same (untouched w tail)

/-- What a position holds was written to it, or nothing was. -/
theorem mem_of_getElem?_writeAll {writes : List (ℕ × Slot)} {position : ℕ} {value : Slot}
    {slots : List Slot} (found : (writeAll writes slots)[position]? = some value) :
    (position, value) ∈ writes ∨
      slots[position]? = some value ∧ ∀ write ∈ writes, write.1 ≠ position := by
  induction writes generalizing slots with
  | nil => exact Or.inr ⟨found, fun _ member => absurd member List.not_mem_nil⟩
  | cons write rest inductionHypothesis =>
      rcases @inductionHypothesis (slots.set write.1 write.2) found with
        later | ⟨kept, untouched⟩
      · exact Or.inl (List.mem_cons_of_mem write later)
      · rw [List.getElem?_set] at kept
        split_ifs at kept with same inside
        · cases kept
          exact Or.inl (same ▸ List.mem_cons_self ..)
        · refine Or.inr ⟨kept, fun other member => ?_⟩
          rcases List.mem_cons.mp member with rfl | tail
          · exact same
          · exact untouched other tail

/-- The last write to a position decides. -/
theorem getElem?_writeAll_eq_last (writes : List (ℕ × Slot)) (slots : List Slot) {position : ℕ}
    (inside : position < slots.length) : (writeAll writes slots)[position]? =
      ((writes.filter fun write => write.1 = position).getLast?.map Prod.snd).or
        slots[position]? := by
  induction writes using List.reverseRecOn with
  | nil => rfl
  | append_singleton earlier write inductionHypothesis =>
      have insideStill : position < (writeAll earlier slots).length := by rwa [length_writeAll]
      rw [writeAll, List.foldl_append, List.foldl_cons, List.foldl_nil, List.filter_append]
      change ((writeAll earlier slots).set write.1 write.2)[position]? = _
      by_cases same : write.1 = position
      · rw [List.filter_cons_of_pos (by simpa using same), List.filter_nil, List.getLast?_concat,
          same, List.getElem?_set_self insideStill]
        rfl
      · rw [List.filter_cons_of_neg (by simpa using same), List.filter_nil, List.append_nil,
          List.getElem?_set_ne same, inductionHypothesis]

/-- **Writes that agree with a target leave exactly the target**, when each position is
written or was right before. -/
theorem writeAll_eq_of_agrees {writes : List (ℕ × Slot)} {slots target : List Slot}
    (sameLength : slots.length = target.length)
    (agree : ∀ write ∈ writes, ∀ value, target[write.1]? = some value → write.2 = value)
    (covered : ∀ position value, target[position]? = some value →
      slots[position]? = some value ∨ ∃ write ∈ writes, write.1 = position) :
    writeAll writes slots = target := by
  refine List.ext_getElem? fun position => ?_
  cases wanted : target[position]? with
  | none =>
      have outside := List.getElem?_eq_none_iff.mp wanted
      exact List.getElem?_eq_none_iff.mpr (by rw [length_writeAll, sameLength]; exact outside)
  | some value =>
      have inside : position < slots.length := by
        rw [sameLength]
        exact (List.getElem?_eq_some_iff.mp wanted).1
      by_cases written : ∃ write ∈ writes, write.1 = position
      · exact getElem?_writeAll (fun w member same => agree w member value (same ▸ wanted)) written
          inside
      · have kept := (covered position value wanted).resolve_right written
        rw [getElem?_writeAll_of_notMem fun w member same => written ⟨w, member, same⟩, kept]

end ProtocolExplorer.Lib
