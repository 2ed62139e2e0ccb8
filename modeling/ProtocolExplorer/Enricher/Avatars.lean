import ProtocolExplorer.Enricher.Sweeps

/-!
# Stored avatars

`ens_avatar_stored_ext` marks the addresses whose image has been stored.  A resolution sets it
where the image was read, leaves it where only the image could not be read, and clears it where
the address has no avatar any more.

* `lookup_step` — what one action does to a row;
* `avatars_run` — **an image once stored stays marked while its address keeps an avatar**, in every
  run.
-/

set_option autoImplicit false

namespace ProtocolExplorer.Enricher

open ProtocolExplorer.Lib
open ProtocolExplorer.Store

/-- The action may resolve the address so. -/
def EnricherAction.Resolves (entity : EnsEntity) (address : Address) (r : Resolution) :
    EnricherAction → Prop
  | profile .. => False
  | refresh other b r' => other = entity ∧ b = address ∧ r' = r
  | runOnce _ _ resolve => resolve entity address = some r

namespace EnsTables

variable {cfg : EnricherConfig} {s : EnsTables} {entity : EnsEntity} {address : Address}
  {a : EnricherAction}

theorem lookup_sweep_other {other : EnsEntity} {now : Timestamp}
    {resolve : Address → Option Resolution} (different : entity ≠ other) :
    ((s.sweep cfg other now resolve).ens entity).lookup address =
      (s.ens entity).lookup address := by
  rw [sweep, lookup_foldl_attempt resolve other (nodup_loadPendingAddresses other now),
    if_neg fun both => different both.1]

theorem lookup_sweep_own {now : Timestamp} {resolve : Address → Option Resolution} :
    ((s.sweep cfg entity now resolve).ens entity).lookup address =
        (s.ens entity).lookup address ∨
      ∃ r, resolve address = some r ∧
        ((s.sweep cfg entity now resolve).ens entity).lookup address =
          some (resolvedRow cfg entity r ((s.ens entity).lookup address)) := by
  rw [sweep, lookup_foldl_attempt resolve entity (nodup_loadPendingAddresses entity now)]
  split
  · cases answered : resolve address with
    | none => exact Or.inl rfl
    | some r => exact Or.inr ⟨r, rfl, rfl⟩
  · exact Or.inl rfl

/-- An action leaves a row or replaces it by a resolution. -/
theorem lookup_step (cfg : EnricherConfig) (s : EnsTables) (entity : EnsEntity)
    (address : Address) (a : EnricherAction) :
    ((s.step cfg a).ens entity).lookup address = (s.ens entity).lookup address ∨
      ∃ r, a.Resolves entity address r ∧ ((s.step cfg a).ens entity).lookup address =
        some (resolvedRow cfg entity r ((s.ens entity).lookup address)) := by
  cases a with
  | profile other b => exact Or.inl rfl
  | refresh other b r =>
      show ((s.upsert cfg other b r).ens entity).lookup address = _ ∨
        ∃ r', _ ∧ ((s.upsert cfg other b r).ens entity).lookup address = _
      rw [lookup_upsert]
      split
      · next here => exact Or.inr ⟨r, ⟨here.1.symm, here.2.symm, rfl⟩, rfl⟩
      · exact Or.inl rfl
  | runOnce now now' resolve =>
      show (((s.sweep cfg .orchestrator now (resolve .orchestrator)).sweep cfg .broadcaster now'
        (resolve .broadcaster)).ens entity).lookup address = _ ∨ ∃ r, _ ∧
          (((s.sweep cfg .orchestrator now (resolve .orchestrator)).sweep cfg .broadcaster now'
            (resolve .broadcaster)).ens entity).lookup address = _
      cases entity with
      | orchestrator =>
          rw [lookup_sweep_other (by decide : EnsEntity.orchestrator ≠ .broadcaster)]
          exact lookup_sweep_own
      | broadcaster =>
          have before : ((s.sweep cfg .orchestrator now (resolve .orchestrator)).ens
              .broadcaster).lookup address = (s.ens .broadcaster).lookup address :=
            lookup_sweep_other (by decide)
          rw [← before]
          exact lookup_sweep_own

/-- The mark of an address. -/
def storedExt (s : EnsTables) (entity : EnsEntity) (address : Address) : Option String :=
  ((s.ens entity).lookup address).bind (·.ensAvatarStoredExt)

theorem storedExt_resolvedRow {r : Resolution} {prior : Option EnsRow}
    (hasAvatar : r.projection.ensAvatarUrl.isSome)
    (marked : (prior.bind (·.ensAvatarStoredExt)).isSome) :
    (resolvedRow cfg entity r prior).ensAvatarStoredExt.isSome := by
  obtain ⟨url, known⟩ := Option.isSome_iff_exists.mp hasAvatar
  show (avatarExt cfg entity r _).isSome
  unfold avatarExt
  split
  · rw [known, Option.isSome_or, marked, Bool.or_true]
  · exact marked

theorem storedExt_step (hasAvatar : ∀ r, a.Resolves entity address r →
    r.projection.ensAvatarUrl.isSome) (marked : (s.storedExt entity address).isSome) :
    ((s.step cfg a).storedExt entity address).isSome := by
  unfold storedExt at marked ⊢
  rcases lookup_step cfg s entity address a with same | ⟨r, resolves, replaced⟩
  · rwa [same]
  · rw [replaced]
    exact storedExt_resolvedRow (hasAvatar r resolves) marked

/-- **A stored avatar stays stored**, through every refresh and sweep, whether or not its image can
be read again, while each resolution of its address finds an avatar. -/
theorem avatars_run {actions : List EnricherAction}
    (marked : (s.storedExt entity address).isSome)
    (hasAvatar : ∀ a ∈ actions, ∀ r, a.Resolves entity address r →
      r.projection.ensAvatarUrl.isSome) :
    ((actions.foldl (step cfg) s).storedExt entity address).isSome := by
  induction actions generalizing s with
  | nil => exact marked
  | cons a rest inductionHypothesis =>
      obtain ⟨own, others⟩ := List.forall_mem_cons.mp hasAvatar
      exact inductionHypothesis (storedExt_step own marked) others

/-! ### An image that cannot be read again -/

def withImage : EnsTables where
  profiles entity := if entity = .orchestrator then {"0xa"} else ∅
  ens entity :=
    if entity = .orchestrator then
      Finmap.singleton "0xa" ⟨⟨some "a.eth", some "ipfs://image"⟩, some 0, some "png"⟩
    else ∅

/-- The name is read, the image is not. -/
def imageUnread : EnricherAction :=
  .refresh .orchestrator "0xa" ⟨⟨some "a.eth", some "ipfs://image"⟩, aDay, none⟩

theorem withImage_stays :
    (([imageUnread, failingFirst aDay].foldl (step ⟨7, 2, true⟩) withImage).storedExt
      .orchestrator "0xa").isSome = true := by
  refine avatars_run rfl fun a member r resolves => ?_
  rcases List.mem_pair.mp member with rfl | rfl
  · obtain ⟨_, _, rfl⟩ := resolves
    rfl
  · cases resolves

end EnsTables

end ProtocolExplorer.Enricher
