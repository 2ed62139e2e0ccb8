import Mathlib

/-!
# Walks along pointers

A node leads to another node, to the end, or to a failure.  A walk follows the pointers from a node
and lists the nodes it has passed before the end.

* `ends_of_chase`, `exists_chase_of_ends` — what a walk comes to does not depend on how long it may
  last;
* `mem_of_ends` — **a walk that ends has passed exactly the nodes that can be reached**;
* `exists_ends_iff` — **among finitely many nodes, a walk ends exactly if no node that it reaches
  leads back to itself**.
-/

set_option autoImplicit false

namespace ProtocolExplorer.Lib

open Relation

universe u v

variable {Node : Type u} {Err : Type v} (step : Node → Except Err (Option Node))

/-- Follow the pointers for so many steps; `none` when the walk lasts longer. -/
def chase : ℕ → Node → Option (Except Err (List Node))
  | 0, _ => none
  | fuel + 1, node =>
      match step node with
      | .error err => some (.error err)
      | .ok none => some (.ok [])
      | .ok (some next) => (chase fuel next).map fun ended => ended.map (node :: ·)

/-- A node points to another. -/
def PointsTo (node next : Node) : Prop := step node = .ok (some next)

/-- What a walk from a node comes to. -/
inductive Ends : Node → Except Err (List Node) → Prop where
  | last {node : Node} (own : step node = .ok none) : Ends node (.ok [])
  | failed {node : Node} {err : Err} (own : step node = .error err) : Ends node (.error err)
  | next {node next : Node} {ended : Except Err (List Node)}
      (own : step node = .ok (some next)) (rest : Ends next ended) :
      Ends node (ended.map (node :: ·))

variable {step} {node : Node}

theorem ends_of_chase {fuel : ℕ} {ended : Except Err (List Node)}
    (walked : chase step fuel node = some ended) : Ends step node ended := by
  induction fuel generalizing node ended with
  | zero => cases walked
  | succ fuel inductionHypothesis =>
      rw [chase] at walked
      split at walked
      · next err own =>
          cases walked
          exact .failed own
      · next own =>
          cases walked
          exact .last own
      · next other own =>
          obtain ⟨rest, later, rfl⟩ := Option.map_eq_some_iff.mp walked
          exact .next own (inductionHypothesis later)

/-- A long enough walk comes to its end. -/
theorem exists_chase_of_ends {ended : Except Err (List Node)} (ends : Ends step node ended) :
    ∃ fuel, chase step fuel node = some ended := by
  induction ends with
  | last own => exact ⟨1, by rw [chase, own]⟩
  | failed own => exact ⟨1, by rw [chase, own]⟩
  | next own _ inductionHypothesis =>
      obtain ⟨fuel, later⟩ := inductionHypothesis
      exact ⟨fuel + 1, by simp only [chase, own, later, Option.map_some]⟩

/-- A pointer leads to one node. -/
theorem reaches_of_pointsTo {next other : Node} (own : PointsTo step node next)
    (reached : TransGen (PointsTo step) node other) : ReflTransGen (PointsTo step) next other := by
  obtain ⟨first, points, rest⟩ := TransGen.head'_iff.mp reached
  cases own.symm.trans points
  exact rest

/-- A walk that ends has passed the nodes it can reach before the end. -/
theorem mem_of_ends {passed : List Node} (ends : Ends step node (.ok passed)) {other : Node} :
    other ∈ passed ↔ ReflTransGen (PointsTo step) node other ∧ step other ≠ .ok none := by
  generalize come : Except.ok passed = ended at ends
  induction ends generalizing passed with
  | @last node own =>
      cases come
      refine iff_of_false List.not_mem_nil ?_
      rintro ⟨reached, notEnd⟩
      rcases reached.cases_head with rfl | ⟨next, points, _⟩
      · exact notEnd own
      · exact absurd (own.symm.trans points) (by simp)
  | failed _ => cases come
  | @next node next ended own rest inductionHypothesis =>
      cases ended with
      | error _ => cases come
      | ok later =>
          cases come
          rw [List.mem_cons, inductionHypothesis rfl]
          constructor
          · rintro (rfl | ⟨reached, notEnd⟩)
            · exact ⟨.refl, by simp [own]⟩
            · exact ⟨reached.head own, notEnd⟩
          · rintro ⟨reached, notEnd⟩
            rcases reached.cases_head with rfl | ⟨first, points, further⟩
            · exact Or.inl rfl
            · cases own.symm.trans points
              exact Or.inr ⟨further, notEnd⟩

/-- A walk that ends meets no node that leads back to itself. -/
theorem not_cyclic_of_ends {ended : Except Err (List Node)} (ends : Ends step node ended)
    {other : Node} (reached : ReflTransGen (PointsTo step) node other) :
    ¬ TransGen (PointsTo step) other other := by
  have stuck : ∀ {last : Node}, (∀ next, ¬ PointsTo step last next) →
      ReflTransGen (PointsTo step) last other → ¬ TransGen (PointsTo step) other other := by
    intro last leads reached cycle
    rcases reached.cases_head with rfl | ⟨next, points, _⟩
    · obtain ⟨next, points, _⟩ := TransGen.head'_iff.mp cycle
      exact leads next points
    · exact leads next points
  induction ends with
  | last own => exact stuck (fun next points => by cases own.symm.trans points) reached
  | failed own => exact stuck (fun next points => by cases own.symm.trans points) reached
  | next own _ inductionHypothesis =>
      rcases reached.cases_head with rfl | ⟨first, points, further⟩
      · -- the cycle is also met from the next node
        intro cycle
        exact inductionHypothesis (reaches_of_pointsTo own cycle) cycle
      · cases own.symm.trans points
        exact inductionHypothesis further

variable [Finite Node]

/-- Without such a node, a walk ends. -/
theorem exists_ends_of_not_cyclic
    (acyclic : ∀ other, ReflTransGen (PointsTo step) node other →
      ¬ TransGen (PointsTo step) other other) : ∃ ended, Ends step node ended := by
  let Reached := { other : Node // ReflTransGen (PointsTo step) node other }
  let Later : Reached → Reached → Prop := fun later earlier =>
    TransGen (PointsTo step) earlier.1 later.1
  have : IsTrans Reached Later := ⟨fun _ _ _ second first => first.trans second⟩
  have : Std.Irrefl Later := ⟨fun other cycle => acyclic other.1 other.2 cycle⟩
  have wellFounded : WellFounded Later := Finite.wellFounded_of_trans_of_irrefl Later
  have all : ∀ other : Reached, ∃ ended, Ends step other.1 ended := by
    intro other
    induction other using wellFounded.induction with
    | _ other inductionHypothesis =>
        cases own : step other.1 with
        | error err => exact ⟨_, .failed own⟩
        | ok pointer =>
            cases pointer with
            | none => exact ⟨_, .last own⟩
            | some next =>
                obtain ⟨ended, rest⟩ :=
                  inductionHypothesis ⟨next, other.2.tail own⟩ (.single own)
                exact ⟨_, .next own rest⟩
  exact all ⟨node, .refl⟩

/-- **A walk ends exactly if it meets no cycle.** -/
theorem exists_ends_iff : (∃ ended, Ends step node ended) ↔
    ∀ other, ReflTransGen (PointsTo step) node other →
      ¬ TransGen (PointsTo step) other other := by
  constructor
  · rintro ⟨ended, ends⟩ other reached
    exact not_cyclic_of_ends ends reached
  · exact exists_ends_of_not_cyclic

end ProtocolExplorer.Lib
