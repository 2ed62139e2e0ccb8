import ProtocolExplorer.Lib.NumberedLogs
import ProtocolExplorer.Lib.NumericColumns
import ProtocolExplorer.Store.Valuation

/-!
# The determinism guard

`insert_valuation_checked` stores a valuation once.  A later call for the same key compares its
arguments with the row and records an attempt `failed_determinism_violation` when they differ.  The
columns round to 18 decimals and the arguments are not rounded before they are compared.

* `diff_eq_nil_iff` — when nothing is reported;
* `violation_of_differs` — a difference that the columns keep is always reported;
* `guard_sound_iff` — **repeated calls are idempotent exactly on arguments of at most 18 decimals**.
-/

set_option autoImplicit false

namespace ProtocolExplorer.Valuator.Guard

open ProtocolExplorer.Lib
open ProtocolExplorer.Store (Numeric)

/-! ## The tables -/

/-- The arguments; a `BigDecimal` compares by its value. -/
structure ValuationInput where
  eventId : ℤ
  valuationVersion : String
  asset : String
  pricingMethod : String
  source : String
  status : String
  blockNumber : ℤ
  amountNative : ℚ
  nativeUsdPrice : Option ℚ
  amountUsd : Option ℚ
  pricingChain : String

/-- The key of `event_valuations`. -/
abbrev Key := ℤ × String × String

def ValuationInput.key (a : ValuationInput) : Key := (a.eventId, a.valuationVersion, a.asset)

/-- What is compared. -/
structure StoredValuation where
  pricingMethod : String
  source : String
  status : String
  amountNative : Numeric
  nativeUsdPrice : Option Numeric
  amountUsd : Option Numeric

/-- A row of `event_valuations`. -/
structure ValuationRecord extends StoredValuation where
  blockNumber : ℤ
  pricingChain : String

/-- A compared value, as the report shows it. -/
inductive Shown where
  | text (value : String)
  | number (value : Option ℚ)
  deriving DecidableEq

/-- An entry of the report. -/
structure DiffEntry where
  field : String
  stored : Shown
  recomputed : Shown
  deriving DecidableEq

/-- A row of `valuation_attempts`. -/
structure Attempt where
  resultStatus : String
  errorDetail : Option (List DiffEntry)
  deriving DecidableEq

/-- `STATUS_DETERMINISM_VIOLATION`. -/
def statusDeterminismViolation : String := "failed_determinism_violation"

/-- `event_valuations_status_check`. -/
def allowedStatuses : List String :=
  ["priced", "priced_with_warning", "failed_missing_pool", "failed_missing_oracle",
    "failed_sequencer_outage"]

/-- The tables; a valuation references its event. -/
structure Tables where
  eventIds : Finset ℤ
  eventValuations : Table Key ValuationRecord
  valuationAttempts : Table (Key × ℕ) Attempt
  referenced : ∀ key ∈ eventValuations, key.1 ∈ eventIds

/-- `insert_attempt`, of an event that exists. -/
def Tables.insertAttempt (s : Tables) (key : Key) (attempt : Attempt) : Tables :=
  { s with
    valuationAttempts :=
      s.valuationAttempts.insertNew (key, lastNumber s.valuationAttempts key + 1) attempt }

/-! ## The guard -/

inductive DeterminismOutcome where
  | inserted
  | idempotent
  | violation (diff : List DiffEntry)
  deriving DecidableEq

/-- One comparison. -/
def compared (field : String) (stored recomputed : Shown) : List DiffEntry :=
  if stored = recomputed then [] else [⟨field, stored, recomputed⟩]

/-- `StoredValuation::diff`; a report without entries is `null`. -/
def StoredValuation.diff (stored : StoredValuation) (a : ValuationInput) : List DiffEntry :=
  compared "pricing_method" (.text stored.pricingMethod) (.text a.pricingMethod) ++
    compared "source" (.text stored.source) (.text a.source) ++
    compared "status" (.text stored.status) (.text a.status) ++
    compared "amount_native" (.number stored.amountNative.toRat) (.number a.amountNative) ++
    compared "native_usd_price" (.number (stored.nativeUsdPrice.map Decimal.toRat))
      (.number a.nativeUsdPrice) ++
    compared "amount_usd" (.number (stored.amountUsd.map Decimal.toRat)) (.number a.amountUsd)

/-- The row of the arguments, as the columns round it. -/
def ValuationInput.record (a : ValuationInput) : ValuationRecord where
  pricingMethod := a.pricingMethod
  source := a.source
  status := a.status
  amountNative := Decimal.ofRat a.amountNative
  nativeUsdPrice := a.nativeUsdPrice.map Decimal.ofRat
  amountUsd := a.amountUsd.map Decimal.ofRat
  blockNumber := a.blockNumber
  pricingChain := a.pricingChain

/-- The constraints of the table: the event, the status and the width of the columns. -/
def Tables.Accepts (s : Tables) (a : ValuationInput) : Prop :=
  a.eventId ∈ s.eventIds ∧ a.status ∈ allowedStatuses ∧ a.record.amountNative.Fits 38 ∧
    (∀ price ∈ a.record.nativeUsdPrice, price.Fits 38) ∧ ∀ usd ∈ a.record.amountUsd, usd.Fits 38

instance (s : Tables) (a : ValuationInput) : Decidable (s.Accepts a) :=
  inferInstanceAs (Decidable (_ ∧ _))

/-- `insert_valuation`, of a key without a row. -/
def Tables.insertValuation (s : Tables) (a : ValuationInput) (accepted : s.Accepts a) : Tables :=
  { s with
    eventValuations := s.eventValuations.insertNew a.key a.record
    referenced := by
      intro key member
      rcases Table.mem_upsert.mp member with rfl | stored
      · exact accepted.1
      · exact s.referenced key stored }

/-- `insert_valuation_checked`. -/
def insertValuationChecked (s : Tables) (a : ValuationInput) :
    Except String (Tables × DeterminismOutcome) :=
  match s.eventValuations.lookup a.key with
  | some stored =>
      let diff := stored.diff a
      if diff.isEmpty then .ok (s, .idempotent)
      else .ok (s.insertAttempt a.key ⟨statusDeterminismViolation, some diff⟩, .violation diff)
  | none =>
      if accepted : s.Accepts a then
        .ok ((s.insertValuation a accepted).insertAttempt a.key ⟨a.status, none⟩, .inserted)
      else .error "constraint violation"

/-- A number of calls with the same arguments. -/
def repeatedCalls (a : ValuationInput) : ℕ → Tables →
    Except String (Tables × List DeterminismOutcome)
  | 0, s => .ok (s, [])
  | n + 1, s => do
      let (s, outcome) ← insertValuationChecked s a
      let (s, outcomes) ← repeatedCalls a n s
      return (s, outcome :: outcomes)

/-! ## Its specification -/

/-- Amounts that the columns hold without rounding. -/
def ValuationInput.Representable (a : ValuationInput) : Prop :=
  Decimal.Representable 18 a.amountNative ∧
    (∀ price ∈ a.nativeUsdPrice, Decimal.Representable 18 price) ∧
      ∀ usd ∈ a.amountUsd, Decimal.Representable 18 usd

/-- A compared field differs from what the column would hold. -/
def StoredValuation.Differs (stored : StoredValuation) (a : ValuationInput) : Prop :=
  stored.pricingMethod ≠ a.pricingMethod ∨ stored.source ≠ a.source ∨ stored.status ≠ a.status ∨
    stored.amountNative ≠ Decimal.ofRat a.amountNative ∨
    stored.nativeUsdPrice ≠ a.nativeUsdPrice.map Decimal.ofRat ∨
      stored.amountUsd ≠ a.amountUsd.map Decimal.ofRat

/-- The guard on a key with a row: calls with the same arguments are idempotent and leave the
tables alone, and a difference is a violation, which is recorded. -/
structure Sound (s : Tables) (a : ValuationInput) : Prop where
  idempotent : ∀ n, repeatedCalls a n s = .ok (s, List.replicate n .idempotent)
  detects : ∀ b stored, b.key = a.key → s.eventValuations.lookup a.key = some stored →
    stored.toStoredValuation.Differs b → ∃ diff, insertValuationChecked s b =
      .ok (s.insertAttempt b.key ⟨statusDeterminismViolation, some diff⟩, .violation diff)

section Facts

variable {s s' : Tables} {a : ValuationInput}

theorem compared_eq_nil {field : String} {stored recomputed : Shown} :
    compared field stored recomputed = [] ↔ stored = recomputed := by
  unfold compared
  split_ifs with same <;> simp [same]

/-- Nothing is reported exactly when everything is equal, numbers by their value. -/
theorem diff_eq_nil_iff {stored : StoredValuation} : stored.diff a = [] ↔
    stored.pricingMethod = a.pricingMethod ∧ stored.source = a.source ∧ stored.status = a.status ∧
      stored.amountNative.toRat = a.amountNative ∧
      stored.nativeUsdPrice.map Decimal.toRat = a.nativeUsdPrice ∧
        stored.amountUsd.map Decimal.toRat = a.amountUsd := by
  simp only [StoredValuation.diff, List.append_eq_nil_iff, compared_eq_nil, Shown.text.injEq,
    Shown.number.injEq, Option.some.injEq, and_assoc]

/-- A rational survives a column exactly if the column holds it. -/
theorem toRat_ofRat_iff {q : ℚ} :
    (Decimal.ofRat q : Numeric).toRat = q ↔ Decimal.Representable 18 q := by
  constructor
  · intro kept
    exact ⟨_, kept⟩
  · rintro ⟨d, rfl⟩
    rw [Decimal.ofRat_toRat]

theorem map_toRat_ofRat_iff {q : Option ℚ} :
    (q.map (Decimal.ofRat : ℚ → Numeric)).map Decimal.toRat = q ↔
      ∀ value ∈ q, Decimal.Representable 18 value := by
  cases q with
  | none => simp
  | some value => simp [toRat_ofRat_iff]

/-- A row agrees with its arguments exactly if nothing was rounded. -/
theorem diff_record_eq_nil_iff : a.record.toStoredValuation.diff a = [] ↔ a.Representable := by
  rw [diff_eq_nil_iff]
  simp only [ValuationInput.record, true_and, toRat_ofRat_iff, map_toRat_ofRat_iff,
    ValuationInput.Representable]

/-- **A difference that the column keeps is reported.** -/
theorem diff_ne_nil_of_differs {stored : StoredValuation} (differs : stored.Differs a) :
    stored.diff a ≠ [] := by
  intro same
  obtain ⟨method, source, status, native, price, usd⟩ := diff_eq_nil_iff.mp same
  have back : (Decimal.ofRat ∘ Decimal.toRat : Numeric → Numeric) = id :=
    funext fun d => Decimal.ofRat_toRat d
  rcases differs with other | other | other | other | other | other
  · exact other method
  · exact other source
  · exact other status
  · exact other (by rw [← native, Decimal.ofRat_toRat])
  · exact other (by rw [← price, Option.map_map, back, Option.map_id, id])
  · exact other (by rw [← usd, Option.map_map, back, Option.map_id, id])

/-- What a call does for a key with a row. -/
theorem insertValuationChecked_of_lookup {stored : ValuationRecord}
    (found : s.eventValuations.lookup a.key = some stored) : insertValuationChecked s a =
      if stored.diff a = [] then .ok (s, .idempotent)
      else .ok (s.insertAttempt a.key ⟨statusDeterminismViolation, some (stored.diff a)⟩,
        .violation (stored.diff a)) := by
  simp only [insertValuationChecked, found, List.isEmpty_iff]

/-- The row that a first call stores. -/
theorem lookup_of_inserted (first : insertValuationChecked s a = .ok (s', .inserted)) :
    s'.eventValuations.lookup a.key = some a.record := by
  unfold insertValuationChecked at first
  split at first
  · dsimp only at first
    split at first <;> cases first
  · next absent =>
      split at first
      · cases first
        show (s.eventValuations.insertNew a.key a.record).lookup a.key = some a.record
        rw [Table.insertNew, Table.lookup_upsert_self, absent, Option.getD_none]
      · cases first

/-- Idempotent calls leave the tables alone, however many. -/
theorem repeatedCalls_of_idempotent
    (once : insertValuationChecked s a = .ok (s, .idempotent)) (n : ℕ) :
    repeatedCalls a n s = .ok (s, List.replicate n .idempotent) := by
  induction n with
  | zero => rfl
  | succ n inductionHypothesis =>
      rw [repeatedCalls, once]
      simp only [bind, Except.bind, inductionHypothesis]
      rfl

/-- **After a call has stored its row, the guard does what it is for exactly if the arguments have
at most 18 decimals.** -/
theorem guard_sound_iff (first : insertValuationChecked s a = .ok (s', .inserted)) :
    Sound s' a ↔ a.Representable := by
  have found := lookup_of_inserted first
  rw [← diff_record_eq_nil_iff]
  constructor
  · intro sound
    by_contra rounded
    have once := sound.idempotent 1
    rw [repeatedCalls, insertValuationChecked_of_lookup found, if_neg rounded] at once
    exact absurd (congrArg Prod.snd (Except.ok.inj once)) nofun
  · intro exact
    refine ⟨repeatedCalls_of_idempotent ?_, fun b stored sameKey isStored differs => ?_⟩
    · rw [insertValuationChecked_of_lookup found, if_pos exact]
    · rw [← sameKey] at isStored
      exact ⟨_, by rw [insertValuationChecked_of_lookup isStored,
        if_neg (diff_ne_nil_of_differs differs)]⟩

end Facts

/-! ## One wei -/

/-- One wei of LPT at a price in dollars. -/
def weiAt (price : ℚ) : ValuationInput where
  eventId := 1
  valuationVersion := "v1"
  asset := "LPT"
  pricingMethod := "uniswap_v3_twap_30min_x_chainlink_eth"
  source := "uniswap_v3_dual_rpc"
  status := "priced"
  blockNumber := 100
  amountNative := 1 / 10 ^ 18
  nativeUsdPrice := some price
  amountUsd := some (price / 10 ^ 18)
  pricingChain := "\x7b\x7d"

/-- One event and no valuation. -/
def oneEvent : Tables := ⟨{1}, ∅, ∅, fun _ absent => absurd absent Finmap.notMem_empty⟩

/-- A first call stores the row. -/
theorem inserted_weiAt {price : ℚ} (accepted : oneEvent.Accepts (weiAt price)) :
    ∃ s, insertValuationChecked oneEvent (weiAt price) = .ok (s, .inserted) :=
  ⟨_, dif_pos accepted⟩

/-- At two dollars the amounts have 18 decimals. -/
theorem guard_sound_weiAt_two : ∃ s,
    insertValuationChecked oneEvent (weiAt 2) = .ok (s, .inserted) ∧ Sound s (weiAt 2) := by
  obtain ⟨s, first⟩ := @inserted_weiAt 2 (by decide +kernel)
  refine ⟨s, first, (guard_sound_iff first).mpr ⟨⟨⟨1⟩, ?_⟩, ?_, ?_⟩⟩
  · norm_num [Decimal.toRat, weiAt]
  · rintro _ ⟨⟩
    exact ⟨⟨2 * 10 ^ 18⟩, by norm_num [Decimal.toRat]⟩
  · rintro _ ⟨⟩
    exact ⟨⟨2⟩, by norm_num [Decimal.toRat]⟩

/-- At a dollar and a half they have not, and the second call is a violation. -/
theorem weiAt_violates : ¬ ∀ s s' a, insertValuationChecked s a = .ok (s', .inserted) →
    insertValuationChecked s' a = .ok (s', .idempotent) := by
  intro claim
  obtain ⟨s, first⟩ := @inserted_weiAt (3 / 2) (by decide +kernel)
  have second := claim oneEvent s (weiAt (3 / 2)) first
  have rounded : (weiAt (3 / 2)).record.toStoredValuation.diff (weiAt (3 / 2)) ≠ [] := by
    decide +kernel
  rw [insertValuationChecked_of_lookup (lookup_of_inserted first), if_neg rounded] at second
  exact absurd (congrArg Prod.snd (Except.ok.inj second)) nofun

end ProtocolExplorer.Valuator.Guard
