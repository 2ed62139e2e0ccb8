import Mathlib

/-!
# Fair semaphores

A semaphore has a limit, the holders of its permits and a queue of waiters.  A permit that is
given back goes to the first waiter.  That no more permits are out than there are, and that
nobody waits while a permit is free, are fields of the structure.

* `exists_holder` — somebody holds a permit, if anybody is there;
* `idxOf_drop_of_holder` — a permit that is given back moves every waiter one place forward;
* `idxOf_drop_le`, `idxOf_acquire` — nothing moves a waiter back.
-/

set_option autoImplicit false

namespace ProtocolExplorer.Lib

universe u

/-- A counting semaphore with a queue. -/
structure Semaphore (Id : Type u) where
  limit : ℕ
  holders : List Id
  waiters : List Id
  bounded : holders.length ≤ limit
  busy : waiters ≠ [] → holders.length = limit

namespace Semaphore

variable {Id : Type u}

/-- All permits are free. -/
def idle (limit : ℕ) : Semaphore Id := ⟨limit, [], [], Nat.zero_le _, fun waits => absurd rfl waits⟩

/-- Holders and waiters. -/
def members (s : Semaphore Id) : List Id := s.holders ++ s.waiters

theorem mem_members {s : Semaphore Id} {id : Id} :
    id ∈ s.members ↔ id ∈ s.holders ∨ id ∈ s.waiters := List.mem_append

theorem mem_members_of_holder {s : Semaphore Id} {id : Id} (holds : id ∈ s.holders) :
    id ∈ s.members := mem_members.mpr (Or.inl holds)

/-- Take a free permit, or queue up. -/
def acquire (s : Semaphore Id) (id : Id) : Semaphore Id :=
  if free : s.waiters = [] ∧ s.holders.length < s.limit then
    { s with
      holders := id :: s.holders
      bounded := by rw [List.length_cons]; exact free.2
      busy := fun waits => absurd free.1 waits }
  else
    { s with
      waiters := s.waiters ++ [id]
      busy := fun _ => by
        by_cases empty : s.waiters = []
        · exact le_antisymm s.bounded (not_lt.mp fun room => free ⟨empty, room⟩)
        · exact s.busy empty }

/-- Whoever holds a permit while others wait is followed by the first of them. -/
theorem length_erase_next [DecidableEq Id] {s : Semaphore Id} {id next : Id} {rest : List Id}
    (holds : id ∈ s.holders) (queue : s.waiters = next :: rest) :
    (next :: s.holders.erase id).length = s.limit := by
  have full : s.holders.length = s.limit := s.busy (by rw [queue]; exact List.cons_ne_nil _ _)
  have positive := List.length_pos_of_mem holds
  rw [List.length_cons, List.length_erase_of_mem holds]
  omega

/-- Give the permit back, or leave the queue. -/
def drop [DecidableEq Id] (s : Semaphore Id) (id : Id) : Semaphore Id :=
  if holds : id ∈ s.holders then
    match queue : s.waiters with
    | [] => { s with
        holders := s.holders.erase id
        waiters := []
        bounded := (List.length_erase_le).trans s.bounded
        busy := fun waits => absurd rfl waits }
    | next :: rest => { s with
        holders := next :: s.holders.erase id
        waiters := rest
        bounded := le_of_eq (length_erase_next holds queue)
        busy := fun _ => length_erase_next holds queue }
  else { s with
    waiters := s.waiters.erase id
    busy := fun waits => s.busy fun empty => waits (by rw [empty]; rfl) }

@[ext] theorem ext {s t : Semaphore Id} (limit : s.limit = t.limit) (holders : s.holders = t.holders)
    (waiters : s.waiters = t.waiters) : s = t := by
  cases s
  cases t
  cases limit
  cases holders
  cases waiters
  rfl

/-- With a permit at all, somebody holds one if anybody is there. -/
theorem exists_holder {s : Semaphore Id} (positive : 0 < s.limit) {id : Id}
    (present : id ∈ s.members) : ∃ holder, holder ∈ s.holders := by
  rcases mem_members.mp present with holds | waits
  · exact ⟨id, holds⟩
  · have full := s.busy (List.ne_nil_of_mem waits)
    exact List.exists_mem_of_length_pos (full ▸ positive)

/-! ## Acquiring -/

section Acquire

variable (s : Semaphore Id) (id : Id)

@[simp] theorem limit_acquire : (s.acquire id).limit = s.limit := by
  unfold acquire
  split <;> rfl

theorem members_acquire : (s.acquire id).members.Perm (id :: s.members) := by
  unfold acquire members
  split
  · exact List.Perm.refl _
  · rw [← List.append_assoc]
    exact List.perm_append_singleton id (s.holders ++ s.waiters)

variable {s id}

theorem mem_members_acquire {other : Id} :
    other ∈ (s.acquire id).members ↔ other = id ∨ other ∈ s.members := by
  rw [(s.members_acquire id).mem_iff, List.mem_cons]

theorem holders_acquire {holder : Id} (holds : holder ∈ s.holders) :
    holder ∈ (s.acquire id).holders := by
  unfold acquire
  split
  · exact List.mem_cons_of_mem _ holds
  · exact holds

theorem waiters_acquire {waiter : Id} (waits : waiter ∈ s.waiters) :
    (s.acquire id).waiters = s.waiters ++ [id] := by
  unfold acquire
  rw [dif_neg fun free => List.ne_nil_of_mem waits free.1]

theorem mem_waiters_of_acquire {waiter : Id} (waits : waiter ∈ (s.acquire id).waiters)
    (other : waiter ≠ id) : waiter ∈ s.waiters := by
  unfold acquire at waits
  split at waits
  · exact waits
  · exact (List.mem_append.mp waits).resolve_right fun last =>
      other (List.mem_singleton.mp last)

/-- Newcomers queue up behind. -/
theorem idxOf_acquire [DecidableEq Id] {waiter : Id} (waits : waiter ∈ s.waiters) :
    (s.acquire id).waiters.idxOf waiter = s.waiters.idxOf waiter := by
  rw [waiters_acquire waits, List.idxOf_append_of_mem waits]

end Acquire

/-! ## Giving back -/

section Drop

variable [DecidableEq Id] {s : Semaphore Id} {id : Id}

theorem drop_of_last (holds : id ∈ s.holders) (queue : s.waiters = []) :
    (s.drop id).holders = s.holders.erase id ∧ (s.drop id).waiters = [] := by
  unfold drop
  rw [dif_pos holds]
  split
  · exact ⟨rfl, rfl⟩
  · next next rest waiting =>
      rw [queue] at waiting
      cases waiting

theorem drop_of_queue {next : Id} {rest : List Id} (holds : id ∈ s.holders)
    (queue : s.waiters = next :: rest) :
    (s.drop id).holders = next :: s.holders.erase id ∧ (s.drop id).waiters = rest := by
  unfold drop
  rw [dif_pos holds]
  split
  · next empty =>
      rw [queue] at empty
      cases empty
  · next next' rest' waiting =>
      rw [queue] at waiting
      cases waiting
      exact ⟨rfl, rfl⟩

theorem drop_of_waiter (holds : id ∉ s.holders) :
    (s.drop id).holders = s.holders ∧ (s.drop id).waiters = s.waiters.erase id := by
  unfold drop
  rw [dif_neg holds]
  exact ⟨rfl, rfl⟩

@[simp] theorem limit_drop (s : Semaphore Id) (id : Id) : (s.drop id).limit = s.limit := by
  unfold drop
  split
  · split <;> rfl
  · rfl

theorem members_drop (s : Semaphore Id) (id : Id) :
    (s.drop id).members.Perm (s.members.erase id) := by
  unfold members
  by_cases holds : id ∈ s.holders
  · rw [List.erase_append_left _ holds]
    cases queue : s.waiters with
    | nil =>
        obtain ⟨holders, waiters⟩ := drop_of_last holds queue
        rw [holders, waiters]
    | cons next rest =>
        obtain ⟨holders, waiters⟩ := drop_of_queue holds queue
        rw [holders, waiters]
        exact List.perm_middle.symm
  · obtain ⟨holders, waiters⟩ := drop_of_waiter holds
    rw [holders, waiters, List.erase_append_right _ holds]

theorem mem_members_drop (distinct : s.members.Nodup) {other : Id} :
    other ∈ (s.drop id).members ↔ other ≠ id ∧ other ∈ s.members := by
  rw [(s.members_drop id).mem_iff, distinct.mem_erase_iff]

/-- Holders keep their permits. -/
theorem holders_drop {holder : Id} (holds : holder ∈ s.holders) (other : holder ≠ id) :
    holder ∈ (s.drop id).holders := by
  by_cases gives : id ∈ s.holders
  · have kept := (List.mem_erase_of_ne other).mpr holds
    cases queue : s.waiters with
    | nil => exact (drop_of_last gives queue).1 ▸ kept
    | cons next rest => exact (drop_of_queue gives queue).1 ▸ List.mem_cons_of_mem _ kept
  · exact (drop_of_waiter gives).1 ▸ holds

/-- Somebody who is not there changes nothing. -/
theorem drop_of_notMem (absent : id ∉ s.members) : s.drop id = s := by
  have notHolder : id ∉ s.holders := fun holds => absent (mem_members_of_holder holds)
  have notWaiter : id ∉ s.waiters := fun waits => absent (mem_members.mpr (Or.inr waits))
  obtain ⟨holders, waiters⟩ := drop_of_waiter notHolder
  exact Semaphore.ext (limit_drop s id) holders (waiters.trans (List.erase_of_not_mem notWaiter))

/-- A permit given back moves a waiter one place forward. -/
theorem idxOf_drop_of_holder (holds : id ∈ s.holders) {waiter : Id}
    (still : waiter ∈ (s.drop id).waiters) (distinct : s.members.Nodup) :
    (s.drop id).waiters.idxOf waiter + 1 = s.waiters.idxOf waiter := by
  cases queue : s.waiters with
  | nil =>
      rw [(drop_of_last holds queue).2] at still
      cases still
  | cons next rest =>
      rw [(drop_of_queue holds queue).2] at still ⊢
      have first : next ∉ rest := by
        have inside := (List.nodup_append.mp distinct).2.1
        rw [queue] at inside
        exact (List.nodup_cons.mp inside).1
      have notFirst : next ≠ waiter := fun same => first (same ▸ still)
      rw [List.idxOf_cons_ne _ notFirst]

theorem idxOf_erase_le (queue : List Id) {waiter : Id} (other : waiter ≠ id) :
    (queue.erase id).idxOf waiter ≤ queue.idxOf waiter := by
  induction queue with
  | nil => exact le_refl _
  | cons first rest inductionHypothesis =>
      by_cases own : first = id
      · subst own
        rw [List.erase_cons_head, List.idxOf_cons_ne _ other.symm]
        exact Nat.le_succ _
      · rw [List.erase_cons_tail (by simpa using own)]
        by_cases found : first = waiter
        · rw [found, List.idxOf_cons_self]
          exact Nat.zero_le _
        · rw [List.idxOf_cons_ne _ found, List.idxOf_cons_ne _ found]
          exact Nat.succ_le_succ inductionHypothesis

/-- Whoever leaves, nobody moves back. -/
theorem idxOf_drop_le {waiter : Id} (still : waiter ∈ (s.drop id).waiters) (other : waiter ≠ id)
    (distinct : s.members.Nodup) : (s.drop id).waiters.idxOf waiter ≤ s.waiters.idxOf waiter := by
  by_cases holds : id ∈ s.holders
  · exact (Nat.le_succ _).trans (le_of_eq (idxOf_drop_of_holder holds still distinct))
  · rw [(drop_of_waiter holds).2]
    exact idxOf_erase_le _ other

/-- A waiter waited before. -/
theorem mem_waiters_of_drop {waiter : Id} (waits : waiter ∈ (s.drop id).waiters) :
    waiter ∈ s.waiters := by
  by_cases holds : id ∈ s.holders
  · cases queue : s.waiters with
    | nil =>
        rw [(drop_of_last holds queue).2] at waits
        cases waits
    | cons next rest =>
        rw [(drop_of_queue holds queue).2] at waits
        exact List.mem_cons_of_mem _ waits
  · rw [(drop_of_waiter holds).2] at waits
    exact List.mem_of_mem_erase waits

end Drop

/-- Nobody is there exactly if all permits are free. -/
theorem eq_idle_of_empty {s : Semaphore Id} (empty : s.members = []) : s = idle s.limit := by
  obtain ⟨holders, waiters⟩ := List.append_eq_nil_iff.mp empty
  exact Semaphore.ext rfl holders waiters

end Semaphore

end ProtocolExplorer.Lib
