import ProtocolExplorer.Lib.KeyedTable

/-!
# A cache of answers

Answers are kept under the question and never replaced; errors are not kept.  A cached
question is not asked again.

* `cachedCall_extends` — no answer is lost;
* `lookup_cachedCall` — what is answered is in the cache;
* `cachedCall_snd_of_called` — a call does not change what is answered;
* `cachedCall_all` — what holds of the cached answers and of a new one holds of all.
-/

set_option autoImplicit false

namespace ProtocolExplorer.Lib

universe u v w

variable {Question : Type u} {Answer : Type v} {Err : Type w} [DecidableEq Question]

/-- The cached answer, or the one served, which is then cached. -/
def cachedCall (serve : Question → Except Err Answer) (question : Question)
    (cache : Table Question Answer) : Table Question Answer × Except Err Answer :=
  match cache.lookup question with
  | some answer => (cache, .ok answer)
  | none =>
      match serve question with
      | .error err => (cache, .error err)
      | .ok answer => (cache.insertNew question answer, .ok answer)

/-- Every answer of the first cache is in the second. -/
def CacheExtends (before after : Table Question Answer) : Prop :=
  ∀ question answer, before.lookup question = some answer → after.lookup question = some answer

theorem CacheExtends.refl (cache : Table Question Answer) : CacheExtends cache cache :=
  fun _ _ found => found

theorem CacheExtends.trans {first second third : Table Question Answer}
    (before : CacheExtends first second) (after : CacheExtends second third) :
    CacheExtends first third :=
  fun question answer found => after question answer (before question answer found)

section Call

variable {serve : Question → Except Err Answer} {question : Question}
  {cache after : Table Question Answer} {result : Except Err Answer}

theorem Table.lookup_insertNew_of_none {answer : Answer} (absent : cache.lookup question = none)
    (other : Question) : (cache.insertNew question answer).lookup other =
      if other = question then some answer else cache.lookup other := by
  rw [Table.insertNew, Table.lookup_upsert, absent, Option.getD_none]

/-- The cache afterwards is the one before, or has one more answer, which was served. -/
theorem cachedCall_cases (called : cachedCall serve question cache = (after, result)) :
    after = cache ∨ ∃ answer, cache.lookup question = none ∧ serve question = .ok answer ∧
      after = cache.insertNew question answer := by
  unfold cachedCall at called
  cases found : cache.lookup question with
  | some answer =>
      rw [found] at called
      cases called
      exact Or.inl rfl
  | none =>
      rw [found] at called
      cases served : serve question with
      | error err =>
          rw [served] at called
          cases called
          exact Or.inl rfl
      | ok answer =>
          rw [served] at called
          cases called
          exact Or.inr ⟨answer, rfl, rfl, rfl⟩

theorem cachedCall_extends (called : cachedCall serve question cache = (after, result)) :
    CacheExtends cache after := by
  rcases cachedCall_cases called with rfl | ⟨answer, absent, _, rfl⟩
  · exact CacheExtends.refl _
  · intro other old found
    rw [Table.lookup_insertNew_of_none absent, if_neg]
    · exact found
    · rintro rfl
      rw [absent] at found
      cases found

theorem lookup_cachedCall {answer : Answer}
    (called : cachedCall serve question cache = (after, .ok answer)) :
    after.lookup question = some answer := by
  unfold cachedCall at called
  cases found : cache.lookup question with
  | some cached =>
      rw [found] at called
      cases called
      exact found
  | none =>
      rw [found] at called
      cases served : serve question with
      | error err =>
          rw [served] at called
          cases called
      | ok fresh =>
          rw [served] at called
          cases called
          rw [Table.lookup_insertNew_of_none found, if_pos rfl]

theorem cachedCall_all {isAnswer : Question → Answer → Prop}
    (called : cachedCall serve question cache = (after, result))
    (cached : ∀ q a, cache.lookup q = some a → isAnswer q a)
    (served : ∀ a, serve question = .ok a → isAnswer question a) :
    ∀ q a, after.lookup q = some a → isAnswer q a := by
  rcases cachedCall_cases called with rfl | ⟨answer, absent, answered, rfl⟩
  · exact cached
  · intro q a found
    rw [Table.lookup_insertNew_of_none absent] at found
    split_ifs at found with same
    · cases found
      exact same ▸ served _ answered
    · exact cached q a found

/-- A call does not change what a question is answered. -/
theorem cachedCall_snd_of_called (called : cachedCall serve question cache = (after, result))
    (other : Question) : (cachedCall serve other after).2 = (cachedCall serve other cache).2 := by
  rcases cachedCall_cases called with rfl | ⟨answer, absent, answered, rfl⟩
  · rfl
  · unfold cachedCall
    rw [Table.lookup_insertNew_of_none absent]
    by_cases same : other = question
    · subst same
      rw [if_pos rfl, absent, answered]
    · rw [if_neg same]
      cases cache.lookup other with
      | some _ => rfl
      | none => cases serve other <;> rfl

end Call

end ProtocolExplorer.Lib
