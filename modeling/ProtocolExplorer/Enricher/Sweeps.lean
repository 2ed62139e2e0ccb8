import ProtocolExplorer.Lib.FairSweeps
import ProtocolExplorer.Lib.KeyedTable
import ProtocolExplorer.Store.RawEvent

/-!
# ENS sweeps

A sweep of the enricher resolves the ENS names of the orchestrators and then of the broadcasters
whose rows are missing or older than the time to live, the oldest first, a limited number at a
time.  A resolution that fails writes nothing, so that its address stays at the front.

* `sweeps_reach` — **while fewer addresses fail than a sweep has places, every other address
  whose row is outdated is resolved after so many sweeps**;
* `blocked_stays` — **as many failing addresses as places shut out whoever is behind them**.
-/

set_option autoImplicit false

namespace ProtocolExplorer.Enricher

open ProtocolExplorer.Lib
open ProtocolExplorer.Store

inductive EnsEntity where
  | orchestrator
  | broadcaster
  deriving DecidableEq, Repr

/-- `EnsEntity::label`. -/
def EnsEntity.label : EnsEntity → String
  | orchestrator => "orchestrator"
  | broadcaster => "broadcaster"

structure EnsProjection where
  ensName : Option String
  ensAvatarUrl : Option String
  deriving DecidableEq, Repr

/-- A row of `orchestrator_ens` or of `broadcaster_ens`; the latter has no stored extension. -/
structure EnsRow extends EnsProjection where
  ensLastResolvedAt : Option Timestamp
  ensAvatarStoredExt : Option String
  deriving DecidableEq, Repr

/-- The tables of one chain. -/
structure EnsTables where
  profiles : EnsEntity → Finset Address
  ens : EnsEntity → Table Address EnsRow

structure EnricherConfig where
  /-- `ttl_days`; a value that is not positive is replaced by the default. -/
  ttlDays : ℕ
  batchLimit : ℕ
  /-- Is `AVATAR_STORE_DIR` set? -/
  avatarStore : Bool

def defaultTtlDays : ℕ := 7

def defaultBatchLimit : ℕ := 100

/-- `$2 * interval '1 day'`. -/
def EnricherConfig.ttl (cfg : EnricherConfig) : Timestamp := toTimestamp (cfg.ttlDays * 86400)

/-- A resolution that succeeds: what was read, `now()` at the upsert, and the extension of the
image that `resolve_and_store` has stored, if any. -/
structure Resolution where
  projection : EnsProjection
  resolvedAt : Timestamp
  storedExt : Option String
  deriving DecidableEq

namespace EnsTables

variable (cfg : EnricherConfig)

/-- `COALESCE(e.ens_last_resolved_at, to_timestamp(0))`. -/
def lastResolved (s : EnsTables) (entity : EnsEntity) (address : Address) : Timestamp :=
  (((s.ens entity).lookup address).bind (·.ensLastResolvedAt)).getD 0

/-- The `WHERE` clause of the pending addresses; only orchestrators are looked at for a missing
image. -/
def isPending (entity : EnsEntity) (now : Timestamp) : Option EnsRow → Bool
  | none => true
  | some row =>
      row.ensLastResolvedAt.all (fun resolvedAt => decide (resolvedAt < now - cfg.ttl)) ||
        (decide (entity = .orchestrator) && cfg.avatarStore && row.ensAvatarUrl.isSome &&
          row.ensAvatarStoredExt.isNone)

def pending (entity : EnsEntity) (now : Timestamp) (s : EnsTables) : Finset Address :=
  (s.profiles entity).filter fun address =>
    isPending cfg entity now ((s.ens entity).lookup address)

/-- `load_pending_orchestrator_addresses`, `load_pending_broadcaster_addresses`. -/
def loadPendingAddresses (entity : EnsEntity) (now : Timestamp) (s : EnsTables) : List Address :=
  sweepBatch (s.lastResolved entity) cfg.batchLimit (s.pending cfg entity now)

/-- What `cache_orchestrator_avatar` leaves in `ens_avatar_stored_ext`. -/
def avatarExt (entity : EnsEntity) (r : Resolution) (prior : Option String) : Option String :=
  if entity = .orchestrator ∧ cfg.avatarStore = true then
    match r.projection.ensAvatarUrl with
    | some _ => r.storedExt.or prior
    | none => none
  else prior

/-- The row of an address after a resolution. -/
def resolvedRow (entity : EnsEntity) (r : Resolution) (prior : Option EnsRow) : EnsRow where
  toEnsProjection := r.projection
  ensLastResolvedAt := some r.resolvedAt
  ensAvatarStoredExt := avatarExt cfg entity r (prior.bind (·.ensAvatarStoredExt))

/-- `resolve_and_upsert_orchestrator`, `resolve_and_upsert_broadcaster`: the part after the
resolution. -/
def upsert (entity : EnsEntity) (address : Address) (r : Resolution) (s : EnsTables) : EnsTables :=
  { s with
    ens := Function.update s.ens entity
      (Table.upsert (s.ens entity) address (resolvedRow cfg entity r)) }

/-- One address of a sweep. -/
def attempt (entity : EnsEntity) (resolve : Address → Option Resolution) (s : EnsTables)
    (address : Address) : EnsTables :=
  match resolve address with
  | none => s
  | some r => s.upsert cfg entity address r

/-- The sweep over one entity. -/
def sweep (entity : EnsEntity) (now : Timestamp) (resolve : Address → Option Resolution)
    (s : EnsTables) : EnsTables :=
  (s.loadPendingAddresses cfg entity now).foldl (attempt cfg entity resolve) s

end EnsTables

inductive EnricherAction where
  /-- A profile appears. -/
  | profile (entity : EnsEntity) (address : Address)
  /-- `refresh_address` of the watcher succeeds. -/
  | refresh (entity : EnsEntity) (address : Address) (r : Resolution)
  /-- `run_once`, with the times at which the pending addresses are loaded. -/
  | runOnce (now now' : Timestamp) (resolve : EnsEntity → Address → Option Resolution)

namespace EnsTables

variable (cfg : EnricherConfig)

def step (s : EnsTables) : EnricherAction → EnsTables
  | .profile entity address =>
      { s with profiles := Function.update s.profiles entity (insert address (s.profiles entity)) }
  | .refresh entity address r => s.upsert cfg entity address r
  | .runOnce now now' resolve =>
      (s.sweep cfg .orchestrator now (resolve .orchestrator)).sweep cfg .broadcaster now'
        (resolve .broadcaster)

variable {cfg} {s : EnsTables} {entity : EnsEntity} {address : Address}

/-! ## One upsert -/

@[simp] theorem profiles_upsert (other : EnsEntity) (a : Address) (r : Resolution) :
    (s.upsert cfg other a r).profiles = s.profiles := rfl

theorem lookup_upsert (other : EnsEntity) (a : Address) (r : Resolution) :
    ((s.upsert cfg other a r).ens entity).lookup address =
      if entity = other ∧ address = a then
        some (resolvedRow cfg entity r ((s.ens entity).lookup address))
      else (s.ens entity).lookup address := by
  by_cases same : entity = other
  · subst same
    show (Function.update s.ens entity _ entity).lookup address = _
    rw [Function.update_self, Table.lookup_upsert]
    by_cases here : address = a
    · rw [if_pos here, if_pos ⟨rfl, here⟩, here]
    · rw [if_neg here, if_neg fun both => here both.2]
  · show (Function.update s.ens other _ entity).lookup address = _
    rw [Function.update_of_ne same, if_neg fun both => same both.1]

theorem lookup_attempt (resolve : Address → Option Resolution) (other : EnsEntity) (a : Address) :
    ((attempt cfg other resolve s a).ens entity).lookup address =
      if entity = other ∧ address = a then
        ((resolve a).map fun r => resolvedRow cfg entity r ((s.ens entity).lookup address)).or
          ((s.ens entity).lookup address)
      else (s.ens entity).lookup address := by
  unfold attempt
  cases resolve a with
  | none =>
      rw [Option.map_none, Option.none_or, ite_self]
  | some r =>
      rw [Option.map_some, Option.some_or]
      exact lookup_upsert other a r

@[simp] theorem profiles_foldl_attempt (resolve : Address → Option Resolution) (other : EnsEntity)
    (batch : List Address) :
    (batch.foldl (attempt cfg other resolve) s).profiles = s.profiles := by
  induction batch generalizing s with
  | nil => rfl
  | cons a rest inductionHypothesis =>
      rw [List.foldl_cons, inductionHypothesis]
      unfold attempt
      cases resolve a <;> rfl

/-- A row after a batch of distinct addresses. -/
theorem lookup_foldl_attempt (resolve : Address → Option Resolution) (other : EnsEntity)
    {batch : List Address} (distinct : batch.Nodup) :
    ((batch.foldl (attempt cfg other resolve) s).ens entity).lookup address =
      if entity = other ∧ address ∈ batch then
        ((resolve address).map fun r =>
          resolvedRow cfg entity r ((s.ens entity).lookup address)).or
            ((s.ens entity).lookup address)
      else (s.ens entity).lookup address := by
  induction batch generalizing s with
  | nil => rw [List.foldl_nil, if_neg fun both => List.not_mem_nil both.2]
  | cons a rest inductionHypothesis =>
      obtain ⟨fresh, distinctRest⟩ := List.nodup_cons.mp distinct
      rw [List.foldl_cons, inductionHypothesis distinctRest, lookup_attempt]
      by_cases same : entity = other
      · by_cases here : address = a
        · subst here
          rw [if_neg fun both => fresh both.2, if_pos ⟨same, rfl⟩,
            if_pos ⟨same, List.mem_cons_self ..⟩]
        · have iff : address ∈ a :: rest ↔ address ∈ rest := by simp [here]
          simp only [iff, here, and_false, if_false]
      · rw [if_neg fun both => same both.1, if_neg fun both => same both.1,
          if_neg fun both => same both.1]

theorem nodup_loadPendingAddresses (other : EnsEntity) (now : Timestamp) :
    (s.loadPendingAddresses cfg other now).Nodup :=
  nodup_sweepBatch

theorem mem_profiles_profile (other : EnsEntity) (b : Address) :
    address ∈ (s.step cfg (.profile other b)).profiles entity ↔
      entity = other ∧ address = b ∨ address ∈ s.profiles entity := by
  show address ∈ Function.update s.profiles other (insert b (s.profiles other)) entity ↔ _
  by_cases same : entity = other
  · subst same
    rw [Function.update_self, Finset.mem_insert]
    simp only [true_and]
  · rw [Function.update_of_ne same]
    simp only [same, false_and, false_or]

theorem profiles_sweep (other : EnsEntity) (now : Timestamp)
    (resolve : Address → Option Resolution) :
    (s.sweep cfg other now resolve).profiles = s.profiles :=
  profiles_foldl_attempt ..

/-! ## Outdated rows -/

/-- The addresses whose row was outdated at a time. -/
def late (cfg : EnricherConfig) (t : Timestamp) (entity : EnsEntity) (s : EnsTables) :
    Finset Address :=
  (s.profiles entity).filter fun address => s.lastResolved entity address < t - cfg.ttl

/-- The address has been resolved since a time. -/
def ResolvedSince (t : Timestamp) (entity : EnsEntity) (s : EnsTables) (address : Address) : Prop :=
  ∃ row resolvedAt, (s.ens entity).lookup address = some row ∧
    row.ensLastResolvedAt = some resolvedAt ∧ t ≤ resolvedAt

theorem ttl_nonneg : 0 ≤ cfg.ttl := by
  unfold EnricherConfig.ttl toTimestamp
  positivity

theorem lastResolved_of_lookup {row : EnsRow} {resolvedAt : Timestamp}
    (found : (s.ens entity).lookup address = some row)
    (stamped : row.ensLastResolvedAt = some resolvedAt) :
    s.lastResolved entity address = resolvedAt := by
  rw [lastResolved, found, Option.bind_some, stamped]
  rfl

theorem not_late_of_resolvedSince {t : Timestamp} (resolved : ResolvedSince t entity s address) :
    address ∉ s.late cfg t entity := by
  obtain ⟨row, resolvedAt, found, stamped, recent⟩ := resolved
  intro isLate
  have outdated := (Finset.mem_filter.mp isLate).2
  rw [lastResolved_of_lookup found stamped] at outdated
  have nonneg : 0 ≤ cfg.ttl := ttl_nonneg
  exact absurd (outdated.trans_le (sub_le_self t nonneg)) (not_lt.mpr recent)

/-- Outdated addresses are pending from then on. -/
theorem late_subset_pending {t now : Timestamp} (later : t ≤ now) :
    s.late cfg t entity ⊆ s.pending cfg entity now := by
  intro address isLate
  obtain ⟨listed, outdated⟩ := Finset.mem_filter.mp isLate
  refine Finset.mem_filter.mpr ⟨listed, ?_⟩
  cases found : (s.ens entity).lookup address with
  | none => rfl
  | some row =>
      rw [isPending, Bool.or_eq_true]
      refine Or.inl ?_
      cases stamped : row.ensLastResolvedAt with
      | none => rfl
      | some resolvedAt =>
          rw [lastResolved_of_lookup found stamped] at outdated
          rw [Option.all_some, decide_eq_true_eq]
          exact outdated.trans_le (sub_le_sub_right later cfg.ttl)

/-- The outdated addresses come first. -/
theorem older_of_late {t now : Timestamp} :
    ∀ a ∈ s.late cfg t entity, ∀ other ∈ s.pending cfg entity now,
      other ∉ s.late cfg t entity → s.lastResolved entity a < s.lastResolved entity other := by
  intro a isLate other isPending young
  have outdated := (Finset.mem_filter.mp isLate).2
  have recent : ¬s.lastResolved entity other < t - cfg.ttl := fun old =>
    young (Finset.mem_filter.mpr ⟨(Finset.mem_filter.mp isPending).1, old⟩)
  exact outdated.trans_le (not_lt.mp recent)

/-! ## One batch -/

section Batch

variable {other : EnsEntity} {t : Timestamp} {resolve : Address → Option Resolution}
  {batch : List Address}

theorem resolvedSince_foldl (distinct : batch.Nodup)
    (recent : ∀ a r, resolve a = some r → t ≤ r.resolvedAt)
    (resolved : ResolvedSince t entity s address) :
    ResolvedSince t entity (batch.foldl (attempt cfg other resolve) s) address := by
  obtain ⟨row, resolvedAt, found, stamped, since⟩ := resolved
  unfold ResolvedSince
  rw [lookup_foldl_attempt resolve other distinct, found]
  split
  · cases tried : resolve address with
    | none => exact ⟨row, resolvedAt, rfl, stamped, since⟩
    | some r => exact ⟨_, r.resolvedAt, rfl, rfl, recent address r tried⟩
  · exact ⟨row, resolvedAt, rfl, stamped, since⟩

/-- Who is tried and does not fail is resolved. -/
theorem resolvedSince_of_tried (distinct : batch.Nodup)
    (recent : ∀ a r, resolve a = some r → t ≤ r.resolvedAt) (tried : address ∈ batch)
    (succeeds : (resolve address).isSome) :
    ResolvedSince t entity (batch.foldl (attempt cfg entity resolve) s) address := by
  obtain ⟨r, answered⟩ := Option.isSome_iff_exists.mp succeeds
  refine ⟨resolvedRow cfg entity r ((s.ens entity).lookup address), r.resolvedAt, ?_, rfl,
    recent address r answered⟩
  rw [lookup_foldl_attempt resolve entity distinct, if_pos ⟨rfl, tried⟩, answered]
  rfl

/-- A batch resolves an address or leaves its row. -/
theorem resolvedSince_or_same (distinct : batch.Nodup)
    (recent : ∀ a r, resolve a = some r → t ≤ r.resolvedAt) (address : Address) :
    ResolvedSince t entity (batch.foldl (attempt cfg other resolve) s) address ∨
      (batch.foldl (attempt cfg other resolve) s).lastResolved entity address =
        s.lastResolved entity address := by
  by_cases tried : entity = other ∧ address ∈ batch ∧ (resolve address).isSome
  · obtain ⟨rfl, member, succeeds⟩ := tried
    exact Or.inl (resolvedSince_of_tried distinct recent member succeeds)
  · refine Or.inr ?_
    rw [lastResolved, lastResolved, lookup_foldl_attempt resolve other distinct]
    split
    · next inBatch =>
        cases answered : resolve address with
        | none => rfl
        | some r => exact absurd ⟨inBatch.1, inBatch.2, by rw [answered]; rfl⟩ tried
    · rfl

/-- An address that stays outdated was outdated. -/
theorem late_foldl_subset (distinct : batch.Nodup)
    (recent : ∀ a r, resolve a = some r → t ≤ r.resolvedAt) :
    (batch.foldl (attempt cfg other resolve) s).late cfg t entity ⊆ s.late cfg t entity := by
  intro address isLate
  obtain ⟨listed, outdated⟩ := Finset.mem_filter.mp isLate
  rw [profiles_foldl_attempt] at listed
  rcases resolvedSince_or_same distinct recent address with resolved | same
  · exact absurd isLate (not_late_of_resolvedSince resolved)
  · exact Finset.mem_filter.mpr ⟨listed, same ▸ outdated⟩

/-- An outdated address stays so until it is resolved. -/
theorem late_or_resolvedSince (distinct : batch.Nodup)
    (recent : ∀ a r, resolve a = some r → t ≤ r.resolvedAt)
    (isLate : address ∈ s.late cfg t entity) :
    address ∈ (batch.foldl (attempt cfg other resolve) s).late cfg t entity ∨
      ResolvedSince t entity (batch.foldl (attempt cfg other resolve) s) address := by
  obtain ⟨listed, outdated⟩ := Finset.mem_filter.mp isLate
  rcases resolvedSince_or_same distinct recent address with resolved | same
  · exact Or.inr resolved
  · exact Or.inl (Finset.mem_filter.mpr ⟨by rwa [profiles_foldl_attempt], same.symm ▸ outdated⟩)

/-- **A sweep resolves as many outdated addresses as failing ones leave it places.** -/
theorem card_late_sweep_le {now : Timestamp} {failing : Finset Address} (later : t ≤ now)
    (recent : ∀ a r, resolve a = some r → t ≤ r.resolvedAt)
    (succeed : ∀ a ∉ failing, (resolve a).isSome) :
    ((s.sweep cfg entity now resolve).late cfg t entity \ failing).card ≤
      (s.late cfg t entity \ failing).card - (cfg.batchLimit - failing.card) := by
  refine (Finset.card_le_card ?_).trans
    (card_left_le (late_subset_pending later) older_of_late)
  intro address member
  obtain ⟨isLate, fine⟩ := Finset.mem_sdiff.mp member
  refine Finset.mem_sdiff.mpr ⟨Finset.mem_sdiff.mpr
    ⟨late_foldl_subset nodup_sweepBatch recent isLate, fine⟩, fun swept => ?_⟩
  exact not_late_of_resolvedSince (resolvedSince_of_tried nodup_sweepBatch recent
    (List.mem_toFinset.mp swept) (succeed address fine)) isLate

end Batch

end EnsTables

/-! ## Runs -/

namespace EnricherAction

/-- Everything the action does comes at a time or later. -/
def NotBefore (t : Timestamp) : EnricherAction → Prop
  | profile .. => True
  | refresh _ _ r => t ≤ r.resolvedAt
  | runOnce now now' resolve =>
      t ≤ now ∧ t ≤ now' ∧ ∀ entity a r, resolve entity a = some r → t ≤ r.resolvedAt

/-- In sweeps, only certain addresses of an entity fail. -/
def FailsOnly (entity : EnsEntity) (failing : Finset Address) : EnricherAction → Prop
  | runOnce _ _ resolve => ∀ a ∉ failing, (resolve entity a).isSome
  | _ => True

def isRunOnce : EnricherAction → Bool
  | runOnce .. => true
  | _ => false

def isProfile : EnricherAction → Bool
  | profile .. => true
  | _ => false

end EnricherAction

namespace EnsTables

variable {cfg : EnricherConfig} {s : EnsTables} {entity : EnsEntity} {address : Address}
  {t : Timestamp} {a : EnricherAction}

/-- A refresh is a batch of one. -/
theorem step_refresh (other : EnsEntity) (b : Address) (r : Resolution) :
    s.step cfg (.refresh other b r) = [b].foldl (attempt cfg other fun _ => some r) s := rfl

theorem recent_refresh {r : Resolution} (later : t ≤ r.resolvedAt) :
    ∀ (a : Address) r', (fun _ : Address => some r) a = some r' → t ≤ r'.resolvedAt := by
  rintro _ _ ⟨⟩
  exact later

/-- Resolved addresses stay resolved. -/
theorem resolvedSince_step (later : a.NotBefore t)
    (resolved : ResolvedSince t entity s address) :
    ResolvedSince t entity (s.step cfg a) address := by
  cases a with
  | profile other b => exact resolved
  | refresh other b r =>
      rw [step_refresh]
      exact resolvedSince_foldl (List.nodup_singleton b) (recent_refresh later) resolved
  | runOnce now now' resolve =>
      exact resolvedSince_foldl nodup_sweepBatch (later.2.2 .broadcaster)
        (resolvedSince_foldl nodup_sweepBatch (later.2.2 .orchestrator) resolved)

/-- Outdated addresses stay so until they are resolved. -/
theorem late_or_resolvedSince_step (later : a.NotBefore t)
    (isLate : address ∈ s.late cfg t entity) :
    address ∈ (s.step cfg a).late cfg t entity ∨
      ResolvedSince t entity (s.step cfg a) address := by
  cases a with
  | profile other b =>
      obtain ⟨listed, outdated⟩ := Finset.mem_filter.mp isLate
      have stillListed : address ∈ (s.step cfg (.profile other b)).profiles entity :=
        (mem_profiles_profile other b).mpr (Or.inr listed)
      exact Or.inl (Finset.mem_filter.mpr ⟨stillListed, outdated⟩)
  | refresh other b r =>
      rw [step_refresh]
      exact late_or_resolvedSince (List.nodup_singleton b) (recent_refresh later) isLate
  | runOnce now now' resolve =>
      have first : address ∈ (s.sweep cfg .orchestrator now (resolve .orchestrator)).late cfg t
          entity ∨ ResolvedSince t entity (s.sweep cfg .orchestrator now (resolve .orchestrator))
            address :=
        late_or_resolvedSince nodup_sweepBatch (later.2.2 .orchestrator) isLate
      rcases first with still | resolved
      · exact late_or_resolvedSince nodup_sweepBatch (later.2.2 .broadcaster) still
      · exact Or.inr (resolvedSince_foldl nodup_sweepBatch (later.2.2 .broadcaster) resolved)

/-- A profile adds one outdated address at most. -/
theorem card_late_profile_le (failing : Finset Address) (other : EnsEntity) (b : Address) :
    ((s.step cfg (.profile other b)).late cfg t entity \ failing).card ≤
      (s.late cfg t entity \ failing).card + 1 := by
  refine (Finset.card_le_card ?_).trans (Finset.card_insert_le b _)
  intro address member
  obtain ⟨isLate, fine⟩ := Finset.mem_sdiff.mp member
  obtain ⟨listed, outdated⟩ := Finset.mem_filter.mp isLate
  rcases (mem_profiles_profile other b).mp listed with ⟨_, new⟩ | known
  · exact Finset.mem_insert.mpr (Or.inl new)
  · have wasLate : address ∈ s.late cfg t entity := Finset.mem_filter.mpr ⟨known, outdated⟩
    exact Finset.mem_insert_of_mem (Finset.mem_sdiff.mpr ⟨wasLate, fine⟩)

/-- A sweep over both entities. -/
theorem card_late_runOnce_le {failing : Finset Address} {now now' : Timestamp}
    {resolve : EnsEntity → Address → Option Resolution}
    (later : (EnricherAction.runOnce now now' resolve).NotBefore t)
    (fails : (EnricherAction.runOnce now now' resolve).FailsOnly entity failing) :
    ((s.step cfg (.runOnce now now' resolve)).late cfg t entity \ failing).card ≤
      (s.late cfg t entity \ failing).card - (cfg.batchLimit - failing.card) := by
  obtain ⟨first, second, recent⟩ := later
  cases entity with
  | orchestrator =>
      refine (Finset.card_le_card (Finset.sdiff_subset_sdiff ?_ subset_rfl)).trans
        (card_late_sweep_le first (recent .orchestrator) fails)
      exact late_foldl_subset nodup_sweepBatch (recent .broadcaster)
  | broadcaster =>
      refine (card_late_sweep_le second (recent .broadcaster) fails).trans
        (Nat.sub_le_sub_right (Finset.card_le_card (Finset.sdiff_subset_sdiff ?_ subset_rfl)) _)
      exact late_foldl_subset nodup_sweepBatch (recent .orchestrator)

/-- Where failing addresses only are left outdated, the others are resolved. -/
theorem resolvedSince_of_none_left {failing : Finset Address}
    (none : (s.late cfg t entity \ failing).card = 0) (fine : address ∉ failing)
    (reached : address ∈ s.late cfg t entity ∨ ResolvedSince t entity s address) :
    ResolvedSince t entity s address := by
  refine reached.resolve_left fun isLate => ?_
  have left := Finset.mem_sdiff.mpr ⟨isLate, fine⟩
  rw [Finset.card_eq_zero.mp none] at left
  exact Finset.notMem_empty address left

/-- Where a run of sweeps stands: all addresses of a set are resolved, or the sweeps so far have
each used up their places. -/
def Progress (cfg : EnricherConfig) (t : Timestamp) (entity : EnsEntity)
    (failing : Finset Address) (aimed : Finset Address) (bound sweeps : ℕ) (s : EnsTables) : Prop :=
  (∀ address ∈ aimed, ResolvedSince t entity s address) ∨
    (s.late cfg t entity \ failing).card + sweeps * (cfg.batchLimit - failing.card) ≤ bound ∧
      ∀ address ∈ aimed, address ∉ failing ∧
        (address ∈ s.late cfg t entity ∨ ResolvedSince t entity s address)

theorem Progress.step {failing aimed : Finset Address} {bound sweeps : ℕ}
    (progress : Progress cfg t entity failing aimed bound sweeps s) (later : a.NotBefore t)
    (fails : a.FailsOnly entity failing) :
    Progress cfg t entity failing aimed (bound + [a].countP (·.isProfile))
      (sweeps + [a].countP (·.isRunOnce)) (s.step cfg a) := by
  rcases progress with done | ⟨counted, aims⟩
  · exact Or.inl fun address member => resolvedSince_step later (done address member)
  have aimsNext : ∀ address ∈ aimed, address ∉ failing ∧
      (address ∈ (s.step cfg a).late cfg t entity ∨
        ResolvedSince t entity (s.step cfg a) address) := by
    intro address member
    obtain ⟨fine, isLate | resolved⟩ := aims address member
    · exact ⟨fine, late_or_resolvedSince_step later isLate⟩
    · exact ⟨fine, Or.inr (resolvedSince_step later resolved)⟩
  cases a with
  | profile other b =>
      have more := @card_late_profile_le cfg s entity t failing other b
      exact Or.inr ⟨by simp [EnricherAction.isProfile, EnricherAction.isRunOnce]; omega, aimsNext⟩
  | refresh other b r =>
      have fewer : ((s.step cfg (.refresh other b r)).late cfg t entity \ failing).card ≤
          (s.late cfg t entity \ failing).card := by
        rw [step_refresh]
        exact Finset.card_le_card (Finset.sdiff_subset_sdiff
          (late_foldl_subset (List.nodup_singleton b) (recent_refresh later)) subset_rfl)
      exact Or.inr ⟨by simp [EnricherAction.isProfile, EnricherAction.isRunOnce]; omega, aimsNext⟩
  | runOnce now now' resolve =>
      have fewer := @card_late_runOnce_le cfg s entity t failing now now' resolve later fails
      by_cases room : cfg.batchLimit - failing.card ≤ (s.late cfg t entity \ failing).card
      · refine Or.inr ⟨?_, aimsNext⟩
        simp only [EnricherAction.isProfile, EnricherAction.isRunOnce, List.countP_singleton,
          Bool.false_eq_true, if_false, if_true, Nat.add_zero, Nat.add_mul, Nat.one_mul]
        omega
      · -- the places exceed what is left, so nothing is
        refine Or.inl fun address member => ?_
        obtain ⟨fine, reached⟩ := aimsNext address member
        exact resolvedSince_of_none_left (by omega) fine reached

theorem Progress.run {actions : List EnricherAction} {failing aimed : Finset Address}
    {bound sweeps : ℕ} (progress : Progress cfg t entity failing aimed bound sweeps s)
    (later : ∀ a ∈ actions, a.NotBefore t) (fails : ∀ a ∈ actions, a.FailsOnly entity failing) :
    Progress cfg t entity failing aimed (bound + actions.countP (·.isProfile))
      (sweeps + actions.countP (·.isRunOnce)) (actions.foldl (EnsTables.step cfg) s) := by
  induction actions generalizing s bound sweeps with
  | nil => exact progress
  | cons a rest inductionHypothesis =>
      have next := inductionHypothesis
        (progress.step (later a (List.mem_cons_self ..)) (fails a (List.mem_cons_self ..)))
        (fun b member => later b (List.mem_cons_of_mem a member))
        (fun b member => fails b (List.mem_cons_of_mem a member))
      rw [← List.singleton_append, List.countP_append, List.countP_append, ← Nat.add_assoc,
        ← Nat.add_assoc]
      exact next

/-- **Sweeps reach every outdated address that does not fail.**  While fewer addresses fail than a
sweep has places, the outdated ones and the newcomers together, divided by the places left, bound
the number of sweeps after which each of them has been resolved. -/
theorem sweeps_reach {actions : List EnricherAction} {failing : Finset Address}
    (later : ∀ a ∈ actions, a.NotBefore t) (fails : ∀ a ∈ actions, a.FailsOnly entity failing)
    (enough : (s.late cfg t entity \ failing).card + actions.countP (·.isProfile) ≤
      actions.countP (·.isRunOnce) * (cfg.batchLimit - failing.card)) :
    ∀ address ∈ s.late cfg t entity \ failing,
      ResolvedSince t entity (actions.foldl (step cfg) s) address := by
  have start : Progress cfg t entity failing (s.late cfg t entity \ failing)
      (s.late cfg t entity \ failing).card 0 s :=
    Or.inr ⟨by simp, fun address member =>
      ⟨(Finset.mem_sdiff.mp member).2, Or.inl (Finset.mem_sdiff.mp member).1⟩⟩
  rcases start.run later fails with done | ⟨counted, aims⟩
  · exact done
  · intro address member
    obtain ⟨fine, reached⟩ := aims address member
    rw [Nat.zero_add] at counted
    exact resolvedSince_of_none_left (by omega) fine reached

/-! ## Blocked addresses -/

/-- The order of a sweep. -/
def sweepKey (s : EnsTables) (entity : EnsEntity) (address : Address) : Lex (Timestamp × Address) :=
  toLex (s.lastResolved entity address, address)

end EnsTables

/-- The action resolves none of the blocking addresses, and the watcher does not resolve the
victim. -/
def EnricherAction.Blocks (entity : EnsEntity) (blocking : Finset Address) (victim : Address) :
    EnricherAction → Prop
  | profile .. => True
  | refresh other b _ => entity = other → b ∉ blocking ∧ b ≠ victim
  | runOnce _ _ resolve => ∀ b ∈ blocking, resolve entity b = none

namespace EnsTables

variable {cfg : EnricherConfig} {s : EnsTables} {entity : EnsEntity} {t : Timestamp}
  {blocking : Finset Address} {victim : Address}

/-- As many outdated addresses as places, all in front of one address. -/
structure Blocked (cfg : EnricherConfig) (t : Timestamp) (entity : EnsEntity)
    (blocking : Finset Address) (victim : Address) (s : EnsTables) : Prop where
  full : cfg.batchLimit ≤ blocking.card
  outdated : blocking ⊆ s.late cfg t entity
  ahead : ∀ b ∈ blocking, s.sweepKey entity b < s.sweepKey entity victim

/-- Somebody behind a full batch is not swept. -/
theorem Blocked.not_swept (blocked : Blocked cfg t entity blocking victim s) {now : Timestamp}
    (later : t ≤ now) : victim ∉ s.loadPendingAddresses cfg entity now := by
  intro swept
  have all : insert victim blocking ⊆ (s.loadPendingAddresses cfg entity now).toFinset := by
    intro b member
    rw [List.mem_toFinset]
    rcases Finset.mem_insert.mp member with rfl | inFront
    · exact swept
    · by_contra left
      have isPending := mem_sortKeys.mpr (late_subset_pending later (blocked.outdated inFront))
      exact absurd (key_le_of_not_fetched swept isPending left)
        (not_le.mpr (blocked.ahead b inFront))
  have apart : victim ∉ blocking := fun member => lt_irrefl _ (blocked.ahead victim member)
  have tooMany := Finset.card_le_card all
  rw [Finset.card_insert_of_notMem apart,
    List.toFinset_card_of_nodup (nodup_loadPendingAddresses entity now)] at tooMany
  have short : (s.loadPendingAddresses cfg entity now).length ≤ cfg.batchLimit :=
    (List.length_take_le _ _)
  have full := blocked.full
  omega

/-- What is blocked depends on the rows of the addresses involved. -/
theorem Blocked.congr {s' : EnsTables} (blocked : Blocked cfg t entity blocking victim s)
    (profiles : s.profiles entity ⊆ s'.profiles entity)
    (same : ∀ b, b ∈ blocking ∨ b = victim →
      (s'.ens entity).lookup b = (s.ens entity).lookup b) :
    Blocked cfg t entity blocking victim s' where
  full := blocked.full
  outdated b member := by
    obtain ⟨listed, old⟩ := Finset.mem_filter.mp (blocked.outdated member)
    refine Finset.mem_filter.mpr ⟨profiles listed, ?_⟩
    rwa [lastResolved, same b (Or.inl member)]
  ahead b member := by
    have before := blocked.ahead b member
    unfold sweepKey lastResolved at before ⊢
    rwa [same b (Or.inl member), same victim (Or.inr rfl)]

/-- A sweep leaves the blocking addresses and the victim as they are. -/
theorem Blocked.lookup_sweep (blocked : Blocked cfg t entity blocking victim s)
    {other : EnsEntity} {now : Timestamp} {resolve : Address → Option Resolution}
    (later : t ≤ now) (fails : entity = other → ∀ b ∈ blocking, resolve b = none) :
    ∀ b, b ∈ blocking ∨ b = victim →
      ((s.sweep cfg other now resolve).ens entity).lookup b = (s.ens entity).lookup b := by
  intro b involved
  rw [sweep, lookup_foldl_attempt resolve other (nodup_loadPendingAddresses other now)]
  split
  · next tried =>
      obtain ⟨rfl, swept⟩ := tried
      rcases involved with inFront | rfl
      · rw [fails rfl b inFront, Option.map_none, Option.none_or]
      · exact absurd swept (blocked.not_swept later)
  · rfl

theorem Blocked.step {a : EnricherAction} (blocked : Blocked cfg t entity blocking victim s)
    (later : a.NotBefore t) (blocks : a.Blocks entity blocking victim) :
    Blocked cfg t entity blocking victim (s.step cfg a) ∧
      ((s.step cfg a).ens entity).lookup victim = (s.ens entity).lookup victim := by
  cases a with
  | profile other b =>
      have listed : s.profiles entity ⊆ (s.step cfg (.profile other b)).profiles entity :=
        fun _ member => (mem_profiles_profile other b).mpr (Or.inr member)
      exact ⟨blocked.congr listed fun _ _ => rfl, rfl⟩
  | refresh other b r =>
      have same : ∀ c, c ∈ blocking ∨ c = victim →
          ((s.upsert cfg other b r).ens entity).lookup c = (s.ens entity).lookup c := by
        intro c involved
        rw [lookup_upsert, if_neg]
        rintro ⟨own, rfl⟩
        exact involved.elim (blocks own).1 (blocks own).2
      exact ⟨blocked.congr subset_rfl same, same victim (Or.inr rfl)⟩
  | runOnce now now' resolve =>
      have fails : ∀ other, entity = other → ∀ b ∈ blocking, resolve other b = none :=
        fun other own b member => own ▸ blocks b member
      have first := blocked.lookup_sweep later.1 (fails .orchestrator)
      have between : Blocked cfg t entity blocking victim
          (s.sweep cfg .orchestrator now (resolve .orchestrator)) :=
        blocked.congr (subset_of_eq (congrFun (profiles_sweep ..).symm entity)) first
      have second := between.lookup_sweep later.2.1 (fails .broadcaster)
      have after : Blocked cfg t entity blocking victim
          ((s.sweep cfg .orchestrator now (resolve .orchestrator)).sweep cfg .broadcaster now'
            (resolve .broadcaster)) :=
        between.congr (subset_of_eq (congrFun (profiles_sweep ..).symm entity)) second
      exact ⟨after, (second victim (Or.inr rfl)).trans (first victim (Or.inr rfl))⟩

/-- **As many failing addresses as places shut out whoever is behind them.**  However many sweeps
there are, the row of the address stays as it is. -/
theorem blocked_stays {actions : List EnricherAction}
    (blocked : Blocked cfg t entity blocking victim s) (later : ∀ a ∈ actions, a.NotBefore t)
    (blocks : ∀ a ∈ actions, a.Blocks entity blocking victim) :
    ((actions.foldl (EnsTables.step cfg) s).ens entity).lookup victim =
      (s.ens entity).lookup victim := by
  induction actions generalizing s with
  | nil => rfl
  | cons a rest inductionHypothesis =>
      obtain ⟨still, same⟩ :=
        blocked.step (later a (List.mem_cons_self ..)) (blocks a (List.mem_cons_self ..))
      rw [List.foldl_cons, inductionHypothesis still
        (fun b member => later b (List.mem_cons_of_mem a member))
        (fun b member => blocks b (List.mem_cons_of_mem a member)), same]

/-! ## Three orchestrators, one of which fails -/

def threeOrchestrators : EnsTables where
  profiles entity := if entity = .orchestrator then {"0xa", "0xb", "0xc"} else ∅
  ens _ := ∅

/-- `0xa` fails. -/
def failsForA (now : Timestamp) (address : Address) : Option Resolution :=
  if address = "0xa" then none else some ⟨⟨none, none⟩, now, none⟩

/-- A sweep at one moment. -/
def failingFirst (now : Timestamp) : EnricherAction := .runOnce now now fun _ => failsForA now

theorem failingFirst_notBefore (now : Timestamp) : (failingFirst now).NotBefore now := by
  refine ⟨le_refl _, le_refl _, fun entity a r answered => ?_⟩
  change failsForA now a = some r at answered
  unfold failsForA at answered
  split at answered
  · cases answered
  · cases answered
    exact le_refl _

theorem failingFirst_failsOnly (now : Timestamp) :
    (failingFirst now).FailsOnly .orchestrator {"0xa"} := by
  intro address fine
  show (failsForA now address).isSome
  rw [failsForA, if_neg fun own => fine (Finset.mem_singleton.mpr own)]
  rfl

def aDay : Timestamp := toTimestamp (30 * 86400)

theorem notBefore_aDay : ∀ a ∈ [failingFirst aDay, failingFirst aDay], a.NotBefore aDay := by
  intro a member
  rcases List.mem_pair.mp member with rfl | rfl <;> exact failingFirst_notBefore aDay

/-- After two sweeps with so many places. -/
def sweptTwice (limit : ℕ) : EnsTables :=
  [failingFirst aDay, failingFirst aDay].foldl (step ⟨7, limit, false⟩) threeOrchestrators

/-- With places for two, both of the others are resolved after two sweeps. -/
theorem threeOrchestrators_reached :
    ResolvedSince aDay .orchestrator (sweptTwice 2) "0xb" ∧
      ResolvedSince aDay .orchestrator (sweptTwice 2) "0xc" := by
  have late : threeOrchestrators.late ⟨7, 2, false⟩ aDay .orchestrator \ {"0xa"} =
      {"0xb", "0xc"} := by decide +kernel
  have reached : ∀ address ∈ threeOrchestrators.late ⟨7, 2, false⟩ aDay .orchestrator \ {"0xa"},
      ResolvedSince aDay .orchestrator (sweptTwice 2) address := by
    refine sweeps_reach notBefore_aDay (fun a member => ?_) (by decide +kernel)
    rcases List.mem_pair.mp member with rfl | rfl <;> exact failingFirst_failsOnly aDay
  rw [late] at reached
  exact ⟨reached "0xb" (by decide), reached "0xc" (by decide)⟩

/-- With a place for one, neither of them ever is. -/
theorem threeOrchestrators_blocked :
    ((sweptTwice 1).ens .orchestrator).lookup "0xb" =
      (threeOrchestrators.ens .orchestrator).lookup "0xb" := by
  have blocked : Blocked ⟨7, 1, false⟩ aDay .orchestrator {"0xa"} "0xb" threeOrchestrators :=
    ⟨by decide, by decide +kernel, by decide +kernel⟩
  refine blocked_stays blocked notBefore_aDay fun a member => ?_
  rcases List.mem_pair.mp member with rfl | rfl <;>
    exact fun b inFront => if_pos (Finset.mem_singleton.mp inFront)

end EnsTables

end ProtocolExplorer.Enricher
