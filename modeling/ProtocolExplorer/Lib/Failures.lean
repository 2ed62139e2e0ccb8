import Mathlib

/-!
# Computations that fail

A sequence of steps returns a value only if every step does; a loop over a list that fails has an
element on which its body fails.

* `bind_eq_ok` — the steps of a sequence that returns;
* `mem_of_mapM_ok`, `exists_of_mapM_error` — the results of a loop, or the element it fails on;
* `foldlM_isSome` — a loop with a state ends if its body does on each element.
-/

set_option autoImplicit false

namespace ProtocolExplorer.Lib

theorem bind_eq_ok {ε α β : Type} {x : Except ε α} {f : α → Except ε β} {b : β} :
    (x >>= f) = .ok b ↔ ∃ a, x = .ok a ∧ f a = .ok b := by
  cases x with
  | error message => simp [bind, Except.bind]
  | ok a => simp [bind, Except.bind]

theorem pure_eq_ok {ε α : Type} {a b : α} : (pure a : Except ε α) = .ok b ↔ a = b := by
  simp [pure, Except.pure]

/-- A loop that succeeds on each row. -/
theorem mapM_ok {α β Err : Type} {g : α → Except Err β} {f : α → β} {rows : List α}
    (each : ∀ e ∈ rows, g e = .ok (f e)) : rows.mapM g = .ok (rows.map f) := by
  induction rows with
  | nil => rfl
  | cons head rest inductionHypothesis =>
      rw [List.mapM_cons, each head (by simp),
        inductionHypothesis fun e member => each e (by simp [member])]
      rfl

/-- The results of a batch are those of its members. -/
theorem mem_of_mapM_ok {α β Err : Type} {f : α → Except Err β} {inputs : List α}
    {results : List β} (mapped : inputs.mapM f = .ok results) :
    (∀ input ∈ inputs, ∃ result ∈ results, f input = .ok result) ∧
      ∀ result ∈ results, ∃ input ∈ inputs, f input = .ok result := by
  induction inputs generalizing results with
  | nil =>
      cases mapped
      exact ⟨fun _ member => absurd member List.not_mem_nil,
        fun _ member => absurd member List.not_mem_nil⟩
  | cons input rest inductionHypothesis =>
      rw [List.mapM_cons] at mapped
      cases own : f input with
      | error err =>
          rw [own] at mapped
          cases mapped
      | ok result =>
          rw [own] at mapped
          cases later : rest.mapM f with
          | error err =>
              rw [later] at mapped
              cases mapped
          | ok others =>
              rw [later] at mapped
              cases mapped
              obtain ⟨forth, back⟩ := inductionHypothesis later
              refine ⟨List.forall_mem_cons.mpr ⟨⟨result, List.mem_cons_self .., own⟩, ?_⟩,
                List.forall_mem_cons.mpr ⟨⟨input, List.mem_cons_self .., own⟩, ?_⟩⟩
              · intro other member
                obtain ⟨image, listed, same⟩ := forth other member
                exact ⟨image, List.mem_cons_of_mem _ listed, same⟩
              · intro image member
                obtain ⟨other, listed, same⟩ := back image member
                exact ⟨other, List.mem_cons_of_mem _ listed, same⟩

/-- A batch that fails has a member that fails. -/
theorem exists_of_mapM_error {α β Err : Type} {f : α → Except Err β} {inputs : List α} {err : Err}
    (mapped : inputs.mapM f = .error err) : ∃ input ∈ inputs, f input = .error err := by
  induction inputs with
  | nil => cases mapped
  | cons input rest inductionHypothesis =>
      rw [List.mapM_cons] at mapped
      cases own : f input with
      | error cause =>
          rw [own] at mapped
          cases mapped
          exact ⟨input, List.mem_cons_self .., own⟩
      | ok result =>
          rw [own] at mapped
          cases later : rest.mapM f with
          | error cause =>
              rw [later] at mapped
              cases mapped
              obtain ⟨other, member, failed⟩ := inductionHypothesis later
              exact ⟨other, List.mem_cons_of_mem _ member, failed⟩
          | ok others =>
              rw [later] at mapped
              cases mapped

/-- A loop with a state, whose body ends or not by the element alone. -/
theorem foldlM_isSome {σ α : Type} {f : σ → α → Option σ} {p : α → Prop}
    (each : ∀ s a, (f s a).isSome = true ↔ p a) (elements : List α) (s : σ) :
    (elements.foldlM f s).isSome = true ↔ ∀ a ∈ elements, p a := by
  induction elements generalizing s with
  | nil => simp
  | cons a rest inductionHypothesis =>
      rw [List.foldlM_cons, List.forall_mem_cons, ← each s a]
      cases f s a with
      | none => simp
      | some next => simpa using inductionHypothesis next

end ProtocolExplorer.Lib
