import ProtocolExplorer.Indexer.Decode
import ProtocolExplorer.Lib.Utf8

/-!
# Percent decoding of avatars

An avatar may be a `data:` URI with a percent-encoded text.  The decoder walks over the bytes of
the text and, at a `%`, slices the text itself, which panics inside a character; what it slices it
parses as a number, which may have a sign.

* `length_percentDecodeBytes_le` — the decoder never leaves more than the format says;
* `percentDecode_exact_iff` — **on which texts it replaces exactly the triplets**;
* `cutCharacter_panics` — a text on which it panics.
-/

set_option autoImplicit false

namespace ProtocolExplorer.Enricher

open ProtocolExplorer.Lib
open ProtocolExplorer.Indexer.Wire (hexDigit accumulate unsignedFromRadix)

/-! ## The decoder -/

/-- `b'%'`. -/
def percent : UInt8 := 0x25

/-- `u8::from_str_radix(_, 16)`, which reads bytes as characters. -/
def u8FromStrRadix (digits : List UInt8) : Option UInt8 :=
  (unsignedFromRadix 255 (digits.map fun b => Char.ofNat b.toNat)).toOption.map UInt8.ofNat

/-- The loop of `percent_decode` over the bytes from `i` on: the bytes it pushes, or `none` when a
slice panics. -/
def percentDecodeBytes : List UInt8 → Option (List UInt8)
  | b :: h :: l :: rest =>
      if b = percent then
        -- `&s[i + 1..i + 3]`
        if isBoundary (h :: l :: rest) && isBoundary rest then
          match u8FromStrRadix [h, l] with
          | some byte => (percentDecodeBytes rest).map (byte :: ·)
          | none => (percentDecodeBytes (h :: l :: rest)).map (b :: ·)
        else none
      else (percentDecodeBytes (h :: l :: rest)).map (b :: ·)
  | bytes => some bytes

/-- `percent_decode`. -/
def percentDecode (s : List Char) : Option (List Char) :=
  (percentDecodeBytes (utf8 s)).map fromUtf8Lossy

/-! ## The format -/

/-- The value of a byte that is a hexadecimal digit. -/
def hexByte (b : UInt8) : Option ℕ := hexDigit (Char.ofNat b.toNat)

/-- The bytes of a text with its triplets replaced. -/
def replaceTriplets : List UInt8 → List UInt8
  | b :: h :: l :: rest =>
      if b = percent then
        match hexByte h, hexByte l with
        | some high, some low => UInt8.ofNat (16 * high + low) :: replaceTriplets rest
        | _, _ => b :: replaceTriplets (h :: l :: rest)
      else b :: replaceTriplets (h :: l :: rest)
  | bytes => bytes

/-- What may follow a `%`: nothing; one ASCII character; two, but not a plus sign and a digit; or
first a character of two bytes. -/
def FollowsPercent : List Char → Prop
  | [] => True
  | c :: rest =>
      if c.toNat < 0x80 then
        match rest with
        | [] => True
        | d :: _ => d.toNat < 0x80 ∧ ¬(c = '+' ∧ (hexDigit d).isSome)
      else c.toNat < 0x800

/-- A text whose percent signs are followed so. -/
def Readable : List Char → Prop
  | [] => True
  | c :: rest => (c = '%' → FollowsPercent rest) ∧ Readable rest

/-! ## Digits -/

section Digits

theorem hexByte_lt : ∀ b : UInt8, ∀ n ∈ hexByte b, n < 16 := by decide +kernel

/-- No digit is a percent sign or begins a longer character. -/
theorem hexByte_ascii : ∀ b : UInt8, (hexByte b).isSome → b.toNat < 0x80 ∧ b ≠ percent := by
  decide +kernel

theorem hexByte_plus : hexByte 0x2B = none := by decide

variable {h l : UInt8}

theorem unsignedFromRadix_of_ne {bound : ℕ} {c : Char} {rest : List Char} (unsigned : c ≠ '+') :
    unsignedFromRadix bound (c :: rest) = accumulate bound .posOverflow (c :: rest) 0 := by
  unfold unsignedFromRadix
  split
  · next same => cases same
  · next same => exact absurd (List.cons.inj same).1 unsigned
  · next same => exact absurd (List.cons.inj same).1 unsigned
  · rfl

/-- One digit more. -/
theorem accumulate_cons {total n : ℕ} {c : Char} {rest : List Char}
    (digit : hexDigit c = some n) (small : 16 * total + n ≤ 255) :
    accumulate 255 .posOverflow (c :: rest) total =
      accumulate 255 .posOverflow rest (16 * total + n) := by
  rw [accumulate, digit]
  exact if_neg (not_lt.mpr small)

theorem accumulate_cons_of_none {total : ℕ} {c : Char} {rest : List Char}
    (none : hexDigit c = none) :
    accumulate 255 .posOverflow (c :: rest) total = .error .invalidDigit := by
  rw [accumulate, none]

/-- Two bytes as a number: two digits, or a plus sign and a digit. -/
theorem u8FromStrRadix_pair : u8FromStrRadix [h, l] =
    match hexByte h, hexByte l with
    | some high, some low => some (UInt8.ofNat (16 * high + low))
    | none, some low => if h = 0x2B then some (UInt8.ofNat low) else none
    | _, none => none := by
  have plus : Char.ofNat h.toNat = '+' ↔ h = 0x2B := by
    revert h
    decide +kernel
  unfold u8FromStrRadix
  rw [List.map_cons, List.map_cons, List.map_nil]
  by_cases sign : h = 0x2B
  · subst sign
    rw [plus.mpr rfl, hexByte_plus]
    show (accumulate 255 .posOverflow [Char.ofNat l.toNat] 0).toOption.map UInt8.ofNat = _
    cases digit : hexByte l with
    | none => rw [accumulate_cons_of_none digit]; rfl
    | some low =>
        have := hexByte_lt l low digit
        rw [accumulate_cons digit (by omega), Nat.mul_zero, Nat.zero_add]
        rfl
  · rw [unsignedFromRadix_of_ne (fun same => sign (plus.mp same))]
    cases high : hexByte h with
    | none =>
        rw [accumulate_cons_of_none high]
        cases hexByte l <;> simp [sign, Except.toOption]
    | some high' =>
        have := hexByte_lt h high' high
        rw [accumulate_cons high (by omega), Nat.mul_zero, Nat.zero_add]
        cases low : hexByte l with
        | none => rw [accumulate_cons_of_none low]; rfl
        | some low' =>
            have := hexByte_lt l low' low
            rw [accumulate_cons low (by omega)]
            rfl

end Digits

/-! ## Bytes that are not a percent sign -/

section Skipping

theorem percentDecodeBytes_cons {b : UInt8} (other : b ≠ percent) (rest : List UInt8) :
    percentDecodeBytes (b :: rest) = (percentDecodeBytes rest).map (b :: ·) := by
  match rest with
  | [] => rfl
  | [_] => rfl
  | _ :: _ :: _ => rw [percentDecodeBytes, if_neg other]

theorem replaceTriplets_cons {b : UInt8} (other : b ≠ percent) (rest : List UInt8) :
    replaceTriplets (b :: rest) = b :: replaceTriplets rest := by
  match rest with
  | [] => rfl
  | [_] => rfl
  | _ :: _ :: _ => rw [replaceTriplets, if_neg other]

/-- Bytes without a percent sign stay. -/
theorem percentDecodeBytes_append {front : List UInt8} (none : percent ∉ front)
    (rest : List UInt8) :
    percentDecodeBytes (front ++ rest) = (percentDecodeBytes rest).map (front ++ ·) := by
  induction front with
  | nil => exact Option.map_id'.symm
  | cons b front inductionHypothesis =>
      obtain ⟨other, none⟩ := not_or.mp (List.mem_cons.not.mp none)
      rw [List.cons_append, percentDecodeBytes_cons (Ne.symm other), inductionHypothesis none,
        Option.map_map]
      rfl

theorem replaceTriplets_append {front : List UInt8} (none : percent ∉ front)
    (rest : List UInt8) : replaceTriplets (front ++ rest) = front ++ replaceTriplets rest := by
  induction front with
  | nil => rfl
  | cons b front inductionHypothesis =>
      obtain ⟨other, none⟩ := not_or.mp (List.mem_cons.not.mp none)
      rw [List.cons_append, replaceTriplets_cons (Ne.symm other), inductionHypothesis none]
      rfl

/-- Only the percent sign has its byte. -/
theorem percent_notMem_encode {c : Char} (other : c ≠ '%') :
    percent ∉ String.utf8EncodeChar c := by
  intro member
  rcases utf8EncodeChar_cases c with ⟨ascii, single⟩ | ⟨lead, rest, bytes, encodes⟩
  · rw [single, List.mem_singleton] at member
    have code : percent.toNat = c.toNat := by
      rw [member]
      simp only [UInt8.toNat_ofNat']
      omega
    refine other ?_
    rw [← Char.ofNat_toNat c, ← code]
    rfl
  · rw [bytes] at member
    rcases List.mem_cons.mp member with same | later
    · have := encodes.lead_ge
      rw [← same] at this
      exact absurd this (by decide)
    · exact absurd (encodes.isContinuation_of_mem _ later) (by decide)

end Skipping

/-! ## Lengths -/

section Lengths

variable {h l : UInt8} {rest : List UInt8}

theorem replaceTriplets_triplet {high low : ℕ} (first : hexByte h = some high)
    (second : hexByte l = some low) : replaceTriplets (percent :: h :: l :: rest) =
      UInt8.ofNat (16 * high + low) :: replaceTriplets rest := by
  rw [replaceTriplets, if_pos rfl, first, second]

theorem replaceTriplets_other (other : hexByte h = none ∨ hexByte l = none) :
    replaceTriplets (percent :: h :: l :: rest) = percent :: replaceTriplets (h :: l :: rest) := by
  rw [replaceTriplets, if_pos rfl]
  rcases other with none | none
  · rw [none]
  · rw [none]
    cases hexByte h <;> rfl

/-- What is not a number is no triplet. -/
theorem hexByte_none_of_pair (none : u8FromStrRadix [h, l] = none) :
    hexByte h = .none ∨ hexByte l = .none := by
  rw [u8FromStrRadix_pair] at none
  cases first : hexByte h with
  | none => exact Or.inl rfl
  | some high =>
      cases second : hexByte l with
      | none => exact Or.inr rfl
      | some low =>
          rw [first, second] at none
          cases none

/-- A number that is no triplet is a plus sign and a digit. -/
theorem pair_cases {byte : UInt8} (read : u8FromStrRadix [h, l] = some byte) :
    (∃ high low, hexByte h = some high ∧ hexByte l = some low ∧
        byte = UInt8.ofNat (16 * high + low)) ∨ h = 0x2B ∧ (hexByte l).isSome := by
  rw [u8FromStrRadix_pair] at read
  cases first : hexByte h with
  | none =>
      cases second : hexByte l with
      | none =>
          rw [first, second] at read
          cases read
      | some low =>
          rw [first, second] at read
          dsimp only at read
          split_ifs at read with sign
          exact Or.inr ⟨sign, rfl⟩
  | some high =>
      cases second : hexByte l with
      | none =>
          rw [first, second] at read
          cases read
      | some low =>
          rw [first, second] at read
          cases read
          exact Or.inl ⟨high, low, rfl, rfl, rfl⟩

/-- A plus sign and a digit stay. -/
theorem replaceTriplets_plus (digit : (hexByte l).isSome) :
    replaceTriplets (percent :: 0x2B :: l :: rest) = percent :: 0x2B :: l :: replaceTriplets rest := by
  rw [replaceTriplets_other (Or.inl hexByte_plus), replaceTriplets_cons (by decide),
    replaceTriplets_cons (hexByte_ascii l digit).2]

theorem percentDecodeBytes_read {byte : UInt8}
    (boundary : (isBoundary (h :: l :: rest) && isBoundary rest) = true)
    (read : u8FromStrRadix [h, l] = some byte) :
    percentDecodeBytes (percent :: h :: l :: rest) = (percentDecodeBytes rest).map (byte :: ·) := by
  rw [percentDecodeBytes, if_pos rfl, if_pos boundary, read]

theorem percentDecodeBytes_unread
    (boundary : (isBoundary (h :: l :: rest) && isBoundary rest) = true)
    (unread : u8FromStrRadix [h, l] = none) : percentDecodeBytes (percent :: h :: l :: rest) =
      (percentDecodeBytes (h :: l :: rest)).map (percent :: ·) := by
  rw [percentDecodeBytes, if_pos rfl, if_pos boundary, unread]

theorem percentDecodeBytes_inside
    (inside : ¬(isBoundary (h :: l :: rest) && isBoundary rest) = true) :
    percentDecodeBytes (percent :: h :: l :: rest) = none := by
  rw [percentDecodeBytes, if_pos rfl, if_neg inside]

/-- The decoder leaves no more bytes than the format says. -/
theorem length_percentDecodeBytes_le {bytes out : List UInt8}
    (decoded : percentDecodeBytes bytes = some out) :
    out.length ≤ (replaceTriplets bytes).length := by
  induction bytes using percentDecodeBytes.induct generalizing out with
  | case1 h l rest boundary byte read inductionHypothesis =>
      rw [percentDecodeBytes_read boundary read] at decoded
      obtain ⟨later, own, rfl⟩ := Option.map_eq_some_iff.mp decoded
      have shorter := inductionHypothesis own
      rcases pair_cases read with ⟨high, low, first, second, _⟩ | ⟨rfl, digit⟩
      · rw [replaceTriplets_triplet first second]
        exact Nat.succ_le_succ shorter
      · rw [replaceTriplets_plus digit]
        simp only [List.length_cons]
        omega
  | case2 h l rest boundary unread inductionHypothesis =>
      rw [percentDecodeBytes_unread boundary unread] at decoded
      obtain ⟨later, own, rfl⟩ := Option.map_eq_some_iff.mp decoded
      rw [replaceTriplets_other (hexByte_none_of_pair unread)]
      exact Nat.succ_le_succ (inductionHypothesis own)
  | case3 h l rest inside =>
      rw [percentDecodeBytes_inside inside] at decoded
      cases decoded
  | case4 b h l rest other inductionHypothesis =>
      rw [percentDecodeBytes_cons other] at decoded
      obtain ⟨later, own, rfl⟩ := Option.map_eq_some_iff.mp decoded
      rw [replaceTriplets_cons other]
      exact Nat.succ_le_succ (inductionHypothesis own)
  | case5 bytes short =>
      have same : percentDecodeBytes bytes = some bytes := by
        unfold percentDecodeBytes
        split
        · exact (short _ _ _ _ rfl).elim
        · rfl
      have kept : replaceTriplets bytes = bytes := by
        unfold replaceTriplets
        split
        · exact (short _ _ _ _ rfl).elim
        · rfl
      rw [same] at decoded
      cases decoded
      rw [kept]

end Lengths

/-! ## Texts -/

section Texts

/-- A character below 128 is its byte. -/
theorem utf8_cons_ascii {c : Char} (ascii : c.toNat < 0x80) (text : List Char) :
    utf8 (c :: text) = UInt8.ofNat c.toNat :: utf8 text := by
  have small : c.val.toNat ≤ 0x7f := Nat.le_of_lt_succ ascii
  rw [utf8_cons, String.utf8EncodeChar]
  simp only [if_pos small]
  rfl

theorem hexByte_ofNat {c : Char} (ascii : c.toNat < 0x80) :
    hexByte (UInt8.ofNat c.toNat) = hexDigit c := by
  have code : (UInt8.ofNat c.toNat).toNat = c.toNat := by
    simp only [UInt8.toNat_ofNat']
    omega
  rw [hexByte, code, Char.ofNat_toNat]

theorem ofNat_eq_plus {c : Char} (ascii : c.toNat < 0x80) :
    UInt8.ofNat c.toNat = 0x2B ↔ c = '+' := by
  constructor
  · intro same
    have code : (UInt8.ofNat c.toNat).toNat = 0x2B := by rw [same]; rfl
    simp only [UInt8.toNat_ofNat'] at code
    rw [← Char.ofNat_toNat c, show c.toNat = 0x2B by omega]
  · rintro rfl
    rfl

theorem length_utf8EncodeChar_le_two {c : Char} :
    (String.utf8EncodeChar c).length ≤ 2 ↔ c.toNat < 0x800 := by
  have same : c.val.toNat = c.toNat := rfl
  unfold String.utf8EncodeChar
  simp only [same]
  split_ifs <;> simp only [List.length_cons, List.length_nil] <;> omega

/-- The decoder is right on a percent sign that it leaves, if it is on the text after. -/
theorem map_eq_some_append_iff {decoded : Option (List UInt8)} (front rest : List UInt8) :
    decoded.map (front ++ ·) = some (front ++ rest) ↔ decoded = some rest := by
  have injective : Function.Injective fun bytes : List UInt8 => front ++ bytes :=
    List.append_right_injective front
  rw [← Option.map_some, (Option.map_injective injective).eq_iff]

theorem readable_cons_of_ne {c : Char} (other : c ≠ '%') {rest : List Char} :
    Readable (c :: rest) ↔ Readable rest := by
  rw [Readable]
  exact and_iff_right fun same => absurd same other

theorem readable_percent {rest : List Char} :
    Readable ('%' :: rest) ↔ FollowsPercent rest ∧ Readable rest := by
  rw [Readable]
  exact and_congr_left fun _ => forall_prop_of_true rfl

section Step

variable {d e : Char} {rest : List Char}

/-- A percent sign before two ASCII characters. -/
theorem percentDecodeBytes_pair_iff (first : d.toNat < 0x80) (second : e.toNat < 0x80)
    (shorter : percentDecodeBytes (utf8 rest) = some (replaceTriplets (utf8 rest)) ↔ Readable rest)
    (longer : percentDecodeBytes (utf8 (d :: e :: rest)) =
      some (replaceTriplets (utf8 (d :: e :: rest))) ↔ Readable (d :: e :: rest)) :
    percentDecodeBytes (percent :: utf8 (d :: e :: rest)) =
        some (replaceTriplets (percent :: utf8 (d :: e :: rest))) ↔
      Readable ('%' :: d :: e :: rest) := by
  have boundary : (isBoundary (utf8 (d :: e :: rest)) && isBoundary (utf8 rest)) = true := by
    rw [isBoundary_utf8, isBoundary_utf8]
    rfl
  have bytes : utf8 (d :: e :: rest) =
      UInt8.ofNat d.toNat :: UInt8.ofNat e.toNat :: utf8 rest := by
    rw [utf8_cons_ascii first, utf8_cons_ascii second]
  have follows : FollowsPercent (d :: e :: rest) ↔ ¬(d = '+' ∧ (hexDigit e).isSome) := by
    rw [FollowsPercent, if_pos first]
    exact and_iff_right second
  rw [bytes] at boundary longer ⊢
  rw [readable_percent, follows]
  cases read : u8FromStrRadix [UInt8.ofNat d.toNat, UInt8.ofNat e.toNat] with
  | none =>
      have noTriplet := hexByte_none_of_pair read
      have noSign : ¬(d = '+' ∧ (hexDigit e).isSome) := by
        rintro ⟨rfl, digit⟩
        obtain ⟨low, digit⟩ := Option.isSome_iff_exists.mp digit
        rw [u8FromStrRadix_pair, hexByte_ofNat second, digit] at read
        cases read
      rw [percentDecodeBytes_unread boundary read, replaceTriplets_other noTriplet]
      exact (map_eq_some_append_iff [percent] _).trans
        (longer.trans (and_iff_right noSign).symm)
  | some byte =>
      rw [percentDecodeBytes_read boundary read]
      rcases pair_cases read with ⟨high, low, isHigh, isLow, rfl⟩ | ⟨sign, digit⟩
      · have notPercent : ∀ {c : Char}, c.toNat < 0x80 →
            (hexByte (UInt8.ofNat c.toNat)).isSome → c ≠ '%' := by
          rintro c ascii digit rfl
          exact (hexByte_ascii _ digit).2 rfl
        have noSign : ¬(d = '+' ∧ (hexDigit e).isSome) := by
          rintro ⟨rfl, _⟩
          have none : hexByte (UInt8.ofNat '+'.toNat) = .none := hexByte_plus
          rw [none] at isHigh
          cases isHigh
        rw [replaceTriplets_triplet isHigh isLow, and_iff_right noSign,
          readable_cons_of_ne (notPercent first (by rw [isHigh]; rfl)),
          readable_cons_of_ne (notPercent second (by rw [isLow]; rfl))]
        exact (map_eq_some_append_iff [_] _).trans shorter
      · -- the sign is swallowed
        have sign' := (ofNat_eq_plus first).mp sign
        rw [hexByte_ofNat second] at digit
        refine iff_of_false (fun same => ?_) fun readable => readable.1 ⟨sign', digit⟩
        obtain ⟨later, own, out⟩ := Option.map_eq_some_iff.mp same
        have short := length_percentDecodeBytes_le own
        rw [sign, replaceTriplets_plus (by rwa [hexByte_ofNat second])] at out
        have lengths := congrArg List.length out
        simp only [List.length_cons] at lengths
        omega

/-- A slice that ends inside a character. -/
theorem percentDecodeBytes_cut {b h l : UInt8} {more : List UInt8}
    (inside : isContinuation b = true) :
    percentDecodeBytes (percent :: h :: l :: b :: more) = none := by
  refine percentDecodeBytes_inside fun boundary => ?_
  rw [Bool.and_eq_true, isBoundary, isBoundary, inside] at boundary
  exact absurd boundary.2 (by decide)

/-- A percent sign before a longer character. -/
theorem percentDecodeBytes_long_iff (long : ¬ d.toNat < 0x80)
    (longer : percentDecodeBytes (utf8 (d :: rest)) =
      some (replaceTriplets (utf8 (d :: rest))) ↔ Readable (d :: rest)) :
    percentDecodeBytes (percent :: utf8 (d :: rest)) =
        some (replaceTriplets (percent :: utf8 (d :: rest))) ↔ Readable ('%' :: d :: rest) := by
  have follows : FollowsPercent (d :: rest) ↔ d.toNat < 0x800 := by
    unfold FollowsPercent
    dsimp only
    rw [if_neg long]
  rw [readable_percent, follows, ← length_utf8EncodeChar_le_two]
  rcases utf8EncodeChar_cases d with ⟨ascii, _⟩ | ⟨lead, more, bytes, encodes⟩
  · exact absurd ascii long
  · rw [utf8_cons, bytes] at longer ⊢
    have tails := encodes.isContinuation_of_mem
    match more, encodes.several with
    | [l], _ =>
        have notDigit : hexByte lead = none := by
          by_contra digit
          have := (hexByte_ascii lead (Option.isSome_iff_ne_none.mpr digit)).1
          have := encodes.lead_ge
          omega
        have unread : u8FromStrRadix [lead, l] = none := by
          have noSign : lead ≠ 0x2B := by
            rintro rfl
            exact absurd encodes.lead_ge (by decide)
          rw [u8FromStrRadix_pair, notDigit]
          cases hexByte l with
          | none => rfl
          | some low => exact if_neg noSign
        have boundary : (isBoundary (lead :: l :: utf8 rest) && isBoundary (utf8 rest)) = true := by
          have whole := isBoundary_utf8 (d :: rest)
          rw [utf8_cons, bytes] at whole
          rw [isBoundary_utf8 rest, Bool.and_true]
          exact whole
        show percentDecodeBytes (percent :: lead :: l :: utf8 rest) =
          some (replaceTriplets (percent :: lead :: l :: utf8 rest)) ↔ _
        rw [percentDecodeBytes_unread boundary unread, replaceTriplets_other (Or.inl notDigit)]
        exact (map_eq_some_append_iff [percent] _).trans
          (longer.trans (and_iff_right (by simp)).symm)
    | l :: b :: more, _ =>
        show percentDecodeBytes (percent :: lead :: l :: b :: (more ++ utf8 rest)) = _ ↔ _
        rw [percentDecodeBytes_cut (tails b (by simp))]
        exact iff_of_false nofun fun readable => absurd readable.1 (by simp)

/-- A percent sign before an ASCII character and a longer one. -/
theorem percentDecodeBytes_late_iff (first : d.toNat < 0x80) (second : ¬ e.toNat < 0x80) :
    percentDecodeBytes (percent :: utf8 (d :: e :: rest)) =
        some (replaceTriplets (percent :: utf8 (d :: e :: rest))) ↔
      Readable ('%' :: d :: e :: rest) := by
  have follows : FollowsPercent (d :: e :: rest) ↔ False := by
    rw [FollowsPercent, if_pos first]
    exact iff_false_intro fun ascii => second ascii.1
  rw [readable_percent, follows, utf8_cons_ascii first, utf8_cons]
  rcases utf8EncodeChar_cases e with ⟨ascii, _⟩ | ⟨lead, more, bytes, encodes⟩
  · exact absurd ascii second
  · rw [bytes]
    match more, encodes.several, encodes.isContinuation_of_mem with
    | b :: more, _, tails =>
        show percentDecodeBytes (percent :: UInt8.ofNat d.toNat :: lead :: b ::
          (more ++ utf8 rest)) = _ ↔ _
        rw [percentDecodeBytes_cut (tails b (List.mem_cons_self ..))]
        exact iff_of_false nofun fun readable => readable.1

end Step

/-- The loop replaces exactly the triplets on the readable texts. -/
theorem percentDecodeBytes_eq_iff (s : List Char) :
    percentDecodeBytes (utf8 s) = some (replaceTriplets (utf8 s)) ↔ Readable s := by
  obtain ⟨n, bound⟩ : ∃ n, s.length ≤ n := ⟨_, le_refl _⟩
  induction n generalizing s with
  | zero =>
      rw [List.length_eq_zero_iff.mp (Nat.le_zero.mp bound)]
      exact iff_of_true rfl trivial
  | succ n inductionHypothesis =>
      match s with
      | [] => exact iff_of_true rfl trivial
      | c :: rest =>
          have longer := inductionHypothesis rest (Nat.le_of_succ_le_succ bound)
          by_cases isPercent : c = '%'
          · subst isPercent
            have bytes : utf8 ('%' :: rest) = percent :: utf8 rest := utf8_cons_ascii (by decide) rest
            rw [bytes]
            match rest with
            | [] => exact iff_of_true rfl ⟨fun _ => trivial, trivial⟩
            | d :: more =>
                by_cases first : d.toNat < 0x80
                · match more with
                  | [] =>
                      rw [utf8_cons_ascii first, readable_percent]
                      refine iff_of_true rfl ⟨?_, fun _ => trivial, trivial⟩
                      rw [FollowsPercent, if_pos first]
                      trivial
                  | e :: more =>
                      by_cases second : e.toNat < 0x80
                      · exact percentDecodeBytes_pair_iff first second
                          (inductionHypothesis more (by simp only [List.length_cons] at bound; omega))
                          longer
                      · exact percentDecodeBytes_late_iff first second
                · exact percentDecodeBytes_long_iff first longer
          · rw [utf8_cons, percentDecodeBytes_append (percent_notMem_encode isPercent),
              replaceTriplets_append (percent_notMem_encode isPercent), map_eq_some_append_iff,
              longer, readable_cons_of_ne isPercent]

end Texts

/-- **The decoder replaces exactly the triplets on the readable texts; on the others it panics or
swallows a plus sign.** -/
theorem percentDecode_exact_iff (s : List Char) :
    (∃ out, percentDecodeBytes (utf8 s) = some out ∧ percentDecode s = some (fromUtf8Lossy out) ∧
      out = replaceTriplets (utf8 s)) ↔ Readable s := by
  rw [← percentDecodeBytes_eq_iff]
  constructor
  · rintro ⟨out, decoded, _, rfl⟩
    exact decoded
  · intro decoded
    exact ⟨_, decoded, by rw [percentDecode, decoded, Option.map_some], rfl⟩

/-- A percent sign, an ASCII character and a longer one: the slice ends inside it. -/
theorem cutCharacter_panics : ¬ ∀ s : List Char,
    percentDecodeBytes (utf8 s) = some (replaceTriplets (utf8 s)) := by
  intro claim
  have panics : percentDecodeBytes (utf8 ['%', 'a', 'é']) = none := by decide
  rw [claim] at panics
  cases panics

/-- A sign is read as part of a number. -/
example : percentDecodeBytes (utf8 ['%', '+', 'f']) = some [0x0F] := by decide

end ProtocolExplorer.Enricher
