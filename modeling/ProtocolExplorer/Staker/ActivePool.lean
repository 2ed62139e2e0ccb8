import ProtocolExplorer.Indexer.Decode
import ProtocolExplorer.Lib.PointerWalk
import ProtocolExplorer.Store.RawEvent

/-!
# The active pool

`fetch_active_pool` walks the linked list behind `getFirstTranscoderInPool` and
`getNextTranscoderInPool` until it meets the zero address, and collects the text of every address
it passes.  It does not look whether an address is in the set already.

* `walkPool_eq` — the loop collects what the walk along the pointers passes;
* `walksPool_iff` — **the walk terminates, with exactly the reachable addresses, if and only if no
  transcoder it reaches is linked back to itself**;
* `selfLinked_stuck` — a provider whose first transcoder is its own successor.
-/

set_option autoImplicit false

namespace ProtocolExplorer.Staker.ActivePool

open ProtocolExplorer.Lib
open ProtocolExplorer.Store (Address)
open ProtocolExplorer.Indexer.Wire (byteText hexText)
open Relation

/-! ## Addresses -/

/-- An address of the chain. -/
abbrev EvmAddress := List.Vector UInt8 20

/-- `Address::ZERO`. -/
def zeroAddress : EvmAddress := List.Vector.replicate 20 0

instance finiteUInt8 : Finite UInt8 :=
  Finite.of_injective UInt8.toFin fun _ _ same => UInt8.toFin_inj.mp same

/-- `format!("{current:#x}").to_lowercase()`. -/
def addressText (address : EvmAddress) : Address := (hexText address.toList).toLower

/-- The digits of a byte, which are in lower case. -/
theorem map_toLower_byteText (byte : UInt8) : (byteText byte).map Char.toLower = byteText byte := by
  have small : ∀ digit < 16, (Nat.digitChar digit).toLower = Nat.digitChar digit := by decide
  have bound := byte.toNat_lt
  rw [byteText, List.map_cons, List.map_cons, List.map_nil, small _ (by omega), small _ (by omega)]

theorem addressText_eq (address : EvmAddress) : addressText address = hexText address.toList := by
  have digits : (address.toList.flatMap byteText).map Char.toLower =
      address.toList.flatMap byteText := by
    rw [List.map_flatMap]
    exact List.flatMap_congr fun byte _ => map_toLower_byteText byte
  unfold addressText String.toLower
  rw [← String.toList_inj, String.toList_map, hexText, String.toList_ofList, List.map_cons,
    List.map_cons, digits]
  rfl

theorem byteText_injective : Function.Injective byteText := by
  have digits : ∀ a < 16, ∀ b < 16, Nat.digitChar a = Nat.digitChar b → a = b := by decide
  intro a b same
  have boundA := a.toNat_lt
  have boundB := b.toNat_lt
  have high := digits _ (by omega) _ (by omega) (List.cons.inj same).1
  have low := digits _ (by omega) _ (by omega) (List.cons.inj (List.cons.inj same).2).1
  exact UInt8.toNat_inj.mp (by omega)

/-- Different addresses have different texts. -/
theorem addressText_injective : Function.Injective addressText := by
  have ofBytes : ∀ {first second : List UInt8},
      first.flatMap byteText = second.flatMap byteText → first = second := by
    intro first
    induction first with
    | nil =>
        intro second same
        cases second with
        | nil => rfl
        | cons byte rest => cases same
    | cons byte rest inductionHypothesis =>
        intro second same
        cases second with
        | nil => cases same
        | cons other others =>
            rw [List.flatMap_cons, List.flatMap_cons] at same
            obtain ⟨head, tail⟩ := List.append_inj same rfl
            rw [byteText_injective head, inductionHypothesis tail]
  intro a b same
  rw [addressText_eq, addressText_eq, ← String.toList_inj, hexText, hexText, String.toList_ofList,
    String.toList_ofList] at same
  exact Subtype.ext (ofBytes (List.cons.inj (List.cons.inj same).2).2)

/-! ## The walk -/

/-- What the contract answers at a block, or an error of the call. -/
structure PoolAnswers where
  getFirstTranscoderInPool : Except String EvmAddress
  getNextTranscoderInPool : EvmAddress → Except String EvmAddress

variable (answers : PoolAnswers)

/-- The loop; the fuel bounds its passes. -/
def walkPool : ℕ → EvmAddress → Finset Address → Option (Except String (Finset Address))
  | 0, _, _ => none
  | fuel + 1, current, pool =>
      if current = zeroAddress then some (.ok pool)
      else
        let pool := insert (addressText current) pool
        match answers.getNextTranscoderInPool current with
        | .error err => some (.error err)
        | .ok next => walkPool fuel next pool

/-- `fetch_active_pool`. -/
def fetchActivePool (fuel : ℕ) : Option (Except String (Finset Address)) :=
  match answers.getFirstTranscoderInPool with
  | .error err => some (.error err)
  | .ok first => walkPool answers fuel first ∅

/-! ## Its pointers -/

/-- What the loop does with an address. -/
def poolStep (current : EvmAddress) : Except String (Option EvmAddress) :=
  if current = zeroAddress then .ok none else (answers.getNextTranscoderInPool current).map some

/-- An address of the list is linked to another. -/
def Linked : EvmAddress → EvmAddress → Prop := PointsTo (poolStep answers)

/-- The walk meets an address. -/
def Reached (address : EvmAddress) : Prop :=
  ∃ first, answers.getFirstTranscoderInPool = .ok first ∧
    ReflTransGen (Linked answers) first address

/-- The walk terminates, and if it succeeds it returns the texts of the addresses that are reached
before the zero address. -/
def WalksPool : Prop :=
  ∃ fuel outcome, fetchActivePool answers fuel = some outcome ∧ ∀ pool, outcome = .ok pool →
    (∀ text ∈ pool, ∃ address, text = addressText address) ∧
      ∀ address, addressText address ∈ pool ↔ Reached answers address ∧ address ≠ zeroAddress

variable {answers}

theorem poolStep_eq_none {address : EvmAddress} :
    poolStep answers address = .ok none ↔ address = zeroAddress := by
  unfold poolStep
  split_ifs with zero
  · exact iff_of_true rfl zero
  · refine iff_of_false ?_ zero
    cases answers.getNextTranscoderInPool address <;> exact fun same => by cases same

/-- The loop, in terms of the walk along the pointers. -/
theorem walkPool_eq (fuel : ℕ) (current : EvmAddress) (pool : Finset Address) :
    walkPool answers fuel current pool = (chase (poolStep answers) fuel current).map fun ended =>
      ended.map fun passed => pool ∪ (passed.map addressText).toFinset := by
  induction fuel generalizing current pool with
  | zero => rfl
  | succ fuel inductionHypothesis =>
      rw [walkPool, chase]
      by_cases zero : current = zeroAddress
      · simp [poolStep, zero, Except.map]
      · rw [if_neg zero, poolStep, if_neg zero]
        cases answers.getNextTranscoderInPool current with
        | error err => rfl
        | ok next =>
            dsimp only [Except.map]
            rw [inductionHypothesis, Option.map_map]
            refine congrArg (Option.map · _) (funext fun ended => ?_)
            cases ended with
            | error err => rfl
            | ok passed =>
                simp only [Function.comp_apply, Except.map, List.map_cons, List.toFinset_cons,
                  Finset.insert_union, Finset.union_insert]

/-- **The walk of the active pool** does what it is for exactly if no transcoder it reaches is
linked back to itself. -/
theorem walksPool_iff : WalksPool answers ↔
    ∀ address, Reached answers address → ¬ TransGen (Linked answers) address address := by
  unfold WalksPool Reached fetchActivePool
  cases asked : answers.getFirstTranscoderInPool with
  | error err =>
      refine iff_of_true ⟨0, .error err, rfl, fun _ same => by cases same⟩ ?_
      rintro address ⟨first, same, _⟩
      cases same
  | ok first =>
      simp only [Except.ok.injEq, exists_eq_left', walkPool_eq, Option.map_eq_some_iff]
      refine Iff.trans ?_ exists_ends_iff
      constructor
      · rintro ⟨fuel, _, ⟨ended, walked, _⟩, _⟩
        exact ⟨ended, ends_of_chase walked⟩
      · rintro ⟨ended, ends⟩
        obtain ⟨fuel, walked⟩ := exists_chase_of_ends ends
        refine ⟨fuel, _, ⟨ended, walked, rfl⟩, ?_⟩
        intro pool collected
        cases ended with
        | error err => cases collected
        | ok passed =>
            cases collected
            dsimp only
            rw [Finset.empty_union]
            constructor
            · intro text member
              obtain ⟨address, _, rfl⟩ := List.mem_map.mp (List.mem_toFinset.mp member)
              exact ⟨address, rfl⟩
            · intro address
              rw [List.mem_toFinset, List.mem_map_of_injective addressText_injective,
                mem_of_ends ends, ne_eq, poolStep_eq_none]
              rfl

/-- A provider whose first transcoder is its own successor. -/
def selfLinked : PoolAnswers where
  getFirstTranscoderInPool := .ok (List.Vector.replicate 20 1)
  getNextTranscoderInPool := .ok

theorem selfLinked_stuck : ¬ WalksPool selfLinked := by
  have lasts : ∀ fuel pool, walkPool selfLinked fuel (List.Vector.replicate 20 1) pool = none := by
    intro fuel
    induction fuel with
    | zero => exact fun _ => rfl
    | succ fuel inductionHypothesis =>
        intro pool
        rw [walkPool, if_neg (by decide)]
        exact inductionHypothesis _
  rintro ⟨fuel, outcome, ended, _⟩
  exact absurd ((lasts fuel ∅).symm.trans ended) (Option.some_ne_none outcome).symm

end ProtocolExplorer.Staker.ActivePool
