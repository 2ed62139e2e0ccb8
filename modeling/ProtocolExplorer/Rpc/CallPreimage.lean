import ProtocolExplorer.Lib.Utf8
import ProtocolExplorer.Rpc.CrossCheck

/-!
# What a call hash is computed from

`compute_call_hash` hashes the method, the serialised parameters and the block number, with a zero
byte after the method and another one after the parameters.  The bytes of a block number may be
zero themselves.  JSON has no zero byte: a control character in a string is escaped.

* `append_separator_inj` — what comes before the first separator;
* `toBeBytes_inj` — the bytes of an `i64`;
* `preimage_inj` — **the bytes determine the call**, and a row of the cache is shared by different
  calls only when the hash has a collision.
-/

set_option autoImplicit false

namespace ProtocolExplorer.Rpc

open ProtocolExplorer.Lib

universe u v

/-! ## Bytes -/

section Bytes

/-- Lists with a separator are known by what comes before the first one and after it. -/
theorem append_separator_inj {α : Type u} {separator : α} {first second rest rest' : List α}
    (one : separator ∉ first) (two : separator ∉ second)
    (same : first ++ separator :: rest = second ++ separator :: rest') :
    first = second ∧ rest = rest' := by
  induction first generalizing second with
  | nil =>
      cases second with
      | nil => exact ⟨rfl, (List.cons.inj same).2⟩
      | cons head tail =>
          have here : separator = head := (List.cons.inj same).1
          exact absurd (here ▸ List.mem_cons_self ..) two
  | cons head tail inductionHypothesis =>
      cases second with
      | nil =>
          have here : head = separator := (List.cons.inj same).1
          exact absurd (here ▸ List.mem_cons_self ..) one
      | cons head' tail' =>
          obtain ⟨heads, tails⟩ := List.cons.inj same
          obtain ⟨before, after⟩ := inductionHypothesis
            (fun member => one (List.mem_cons_of_mem _ member))
            (fun member => two (List.mem_cons_of_mem _ member)) tails
          exact ⟨by rw [heads, before], after⟩

/-- Numbers of a number of digits to a base with the same digits. -/
theorem eq_of_digits (base : ℕ) {count m n : ℕ} (small : m < base ^ count)
    (small' : n < base ^ count) (same : ∀ i < count, m / base ^ i % base = n / base ^ i % base) :
    m = n := by
  induction count generalizing m n with
  | zero =>
      rw [pow_zero, Nat.lt_one_iff] at small small'
      rw [small, small']
  | succ count inductionHypothesis =>
      have last : m % base = n % base := by
        simpa using same 0 (Nat.succ_pos count)
      have others : m / base = n / base := by
        refine inductionHypothesis ?_ ?_ fun i inside => ?_
        · exact Nat.div_lt_of_lt_mul (by rwa [pow_succ'] at small)
        · exact Nat.div_lt_of_lt_mul (by rwa [pow_succ'] at small')
        · have digit := same (i + 1) (Nat.succ_lt_succ inside)
          rwa [pow_succ', ← Nat.div_div_eq_div_mul, ← Nat.div_div_eq_div_mul] at digit
      rw [← Nat.div_add_mod m base, ← Nat.div_add_mod n base, last, others]

/-- An `i64` is known by its bytes. -/
theorem toBeBytes_inj {m n : ℤ} (fits : -2 ^ 63 ≤ m ∧ m < 2 ^ 63) (fits' : -2 ^ 63 ≤ n ∧ n < 2 ^ 63)
    (same : toBeBytes m = toBeBytes n) : m = n := by
  have unsigned : (m % 2 ^ 64).toNat = (n % 2 ^ 64).toNat := by
    have eightBytes : (2 ^ 8) ^ 8 = 2 ^ 64 := by norm_num
    refine @eq_of_digits (2 ^ 8) 8 _ _ ?_ ?_ fun i inside => ?_
    · rw [eightBytes]
      omega
    · rw [eightBytes]
      omega
    · have byte := List.map_inj_left.mp same i (List.mem_reverse.mpr (List.mem_range.mpr inside))
      have value := congrArg UInt8.toNat byte
      simpa only [UInt8.toNat_ofNat', pow_mul] using value
  omega

theorem length_toBeBytes (n : ℤ) : (toBeBytes n).length = 8 := by
  simp [toBeBytes]

end Bytes

/-! ## Calls -/

variable {Value : Type u} {Hash : Type v}

/-- The bytes that are hashed. -/
def Codec.preimage (codec : Codec Value Hash) (call : CachedCall Value) : List UInt8 :=
  call.method.toUTF8.toList ++ [0] ++ codec.toVec call.params ++ [0] ++
    call.blockNumber.elim [] toBeBytes

/-- A method without U+0000, and an `i64` for a block number. -/
structure Callable (call : CachedCall Value) : Prop where
  nulFree : '\x00' ∉ call.method.toList
  fits : ∀ n ∈ call.blockNumber, -2 ^ 63 ≤ n ∧ n < 2 ^ 63

section Calls

variable {codec : Codec Value Hash} {first second : CachedCall Value}

theorem computeCallHash_eq (codec : Codec Value Hash) (call : CachedCall Value) :
    codec.computeCallHash call = codec.sha256 (codec.preimage call) := rfl

theorem blockBytes_inj (one : Callable first) (two : Callable second)
    (same : first.blockNumber.elim [] toBeBytes = second.blockNumber.elim [] toBeBytes) :
    first.blockNumber = second.blockNumber := by
  have sameLength := congrArg List.length same
  cases block : first.blockNumber with
  | none =>
      cases block' : second.blockNumber with
      | none => rfl
      | some n =>
          rw [block, block', Option.elim_none, Option.elim_some, length_toBeBytes] at sameLength
          cases sameLength
  | some m =>
      cases block' : second.blockNumber with
      | none =>
          rw [block, block', Option.elim_none, Option.elim_some, length_toBeBytes] at sameLength
          cases sameLength
      | some n =>
          rw [block, block'] at same
          exact congrArg some (toBeBytes_inj (one.fits m block) (two.fits n block') same)

/-- **The bytes determine the call**: its method, its serialised parameters and its block. -/
theorem preimage_inj (text : ∀ value, 0 ∉ codec.toVec value) (one : Callable first)
    (two : Callable second) (same : codec.preimage first = codec.preimage second) :
    first.method = second.method ∧ codec.toVec first.params = codec.toVec second.params ∧
      first.blockNumber = second.blockNumber := by
  simp only [Codec.preimage, toList_toUTF8, List.append_assoc, List.singleton_append] at same
  obtain ⟨methods, rest⟩ := append_separator_inj (fun zero => one.nulFree (zero_mem_utf8 zero))
    (fun zero => two.nulFree (zero_mem_utf8 zero)) same
  obtain ⟨params, blocks⟩ := append_separator_inj (text first.params) (text second.params) rest
  exact ⟨String.toList_injective (utf8_injective methods), params, blockBytes_inj one two blocks⟩

/-- **Different calls do not share a row of the cache**, unless the hash has a collision. -/
theorem callHash_inj (codec : Codec Value Hash) (text : ∀ value, 0 ∉ codec.toVec value)
    (first second : CachedCall Value) (one : Callable first) (two : Callable second) :
    (codec.preimage first = codec.preimage second → first.method = second.method ∧
      codec.toVec first.params = codec.toVec second.params ∧
        first.blockNumber = second.blockNumber) ∧
    (codec.computeCallHash first = codec.computeCallHash second →
      (first.method = second.method ∧ codec.toVec first.params = codec.toVec second.params ∧
        first.blockNumber = second.blockNumber) ∨
      codec.preimage first ≠ codec.preimage second ∧
        codec.sha256 (codec.preimage first) = codec.sha256 (codec.preimage second)) := by
  refine ⟨preimage_inj text one two, fun same => ?_⟩
  by_cases bytes : codec.preimage first = codec.preimage second
  · exact Or.inl (preimage_inj text one two bytes)
  · exact Or.inr ⟨bytes, same⟩

end Calls

/-! ### Calls with one string -/

section OneString

/-- A character of a JSON string. -/
def escapeChar (c : Char) : List Char :=
  if c = '"' then ['\\', '"']
  else if c = '\\' then ['\\', '\\']
  else if c.toNat = 8 then ['\\', 'b']
  else if c.toNat = 9 then ['\\', 't']
  else if c.toNat = 10 then ['\\', 'n']
  else if c.toNat = 12 then ['\\', 'f']
  else if c.toNat = 13 then ['\\', 'r']
  else if c.toNat < 32 then
    ['\\', 'u', '0', '0', Nat.digitChar (c.toNat / 16), Nat.digitChar (c.toNat % 16)]
  else [c]

theorem nul_notMem_escapeChar (c : Char) : '\x00' ∉ escapeChar c := by
  unfold escapeChar
  split_ifs with _ _ _ _ _ _ _ control
  · decide
  · decide
  · decide
  · decide
  · decide
  · decide
  · decide
  · have digits : ∀ n < 32, '\x00' ∉ ['\\', 'u', '0', '0', Nat.digitChar (n / 16),
        Nat.digitChar (n % 16)] := by decide
    exact digits c.toNat control
  · intro member
    rw [← List.mem_singleton.mp member] at control
    exact control (by decide)

/-- Parameters that are a list of one string. -/
def stringCodec : Codec String (List UInt8) where
  null := ""
  toVec text := utf8 (['[', '"'] ++ text.toList.flatMap escapeChar ++ ['"', ']'])
  sha256 := id

theorem zero_notMem_stringCodec (text : String) : 0 ∉ stringCodec.toVec text := by
  intro zero
  have member := zero_mem_utf8 zero
  rcases List.mem_append.mp member with front | back
  · rcases List.mem_append.mp front with opening | inside
    · exact absurd opening (by decide)
    · obtain ⟨c, _, escaped⟩ := List.mem_flatMap.mp inside
      exact nul_notMem_escapeChar c escaped
  · exact absurd back (by decide)

/-- The receipt of a transaction. -/
def receiptCall (blockNumber : Option ℤ) : CachedCall String :=
  ⟨"eth_getTransactionReceipt", "0xab", blockNumber⟩

theorem callHash_inj_receipts :
    (stringCodec.preimage (receiptCall none) = stringCodec.preimage (receiptCall (some 0)) →
      (receiptCall none).method = (receiptCall (some 0)).method ∧
        stringCodec.toVec (receiptCall none).params =
          stringCodec.toVec (receiptCall (some 0)).params ∧
        (receiptCall none).blockNumber = (receiptCall (some 0)).blockNumber) ∧
    (stringCodec.computeCallHash (receiptCall none) =
        stringCodec.computeCallHash (receiptCall (some 0)) →
      ((receiptCall none).method = (receiptCall (some 0)).method ∧
        stringCodec.toVec (receiptCall none).params =
          stringCodec.toVec (receiptCall (some 0)).params ∧
        (receiptCall none).blockNumber = (receiptCall (some 0)).blockNumber) ∨
      stringCodec.preimage (receiptCall none) ≠ stringCodec.preimage (receiptCall (some 0)) ∧
        stringCodec.sha256 (stringCodec.preimage (receiptCall none)) =
          stringCodec.sha256 (stringCodec.preimage (receiptCall (some 0)))) :=
  callHash_inj stringCodec zero_notMem_stringCodec (receiptCall none) (receiptCall (some 0))
    ⟨by decide, by simp [receiptCall]⟩ ⟨by decide, by simp [receiptCall]⟩

end OneString

end ProtocolExplorer.Rpc
