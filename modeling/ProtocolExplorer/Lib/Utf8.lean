import Mathlib

/-!
# Text as bytes

A character is one to four bytes, the first of which tells how many follow and in which ranges the
second may lie.  Bytes that are not text are decoded with a replacement character for each longest
beginning of a character that is not continued.

* `feed_encode` — a decoder that is fed the bytes of a character has decoded it;
* `fromUtf8Lossy_utf8` — text is decoded to itself;
* `toList_toUTF8`, `zero_mem_utf8` — the bytes of a string, and where a zero comes from;
* `fromUtf8Lossy_take` — **a cut of text is decoded to a beginning of it**, with a replacement
  character for a character that is cut.
-/

set_option autoImplicit false

namespace ProtocolExplorer.Lib

/-- The bytes of a text. -/
def utf8 (text : List Char) : List UInt8 := text.flatMap String.utf8EncodeChar

/-- A byte that is not the first one of a character. -/
def isContinuation (b : UInt8) : Bool := decide (0x80 ≤ b.toNat ∧ b.toNat < 0xC0)

/-- `is_char_boundary`, of the place before some bytes of a text. -/
def isBoundary : List UInt8 → Bool
  | [] => true
  | b :: _ => !isContinuation b

/-! ## Decoding -/

/-- U+FFFD. -/
def replacement : Char := '\uFFFD'

/-- The ranges of the bytes that follow a first byte. -/
def following (lead : ℕ) : List (ℕ × ℕ) :=
  if lead < 0xC2 then []
  else if lead ≤ 0xDF then [(0x80, 0xBF)]
  else if lead = 0xE0 then [(0xA0, 0xBF), (0x80, 0xBF)]
  else if lead = 0xED then [(0x80, 0x9F), (0x80, 0xBF)]
  else if lead ≤ 0xEF then [(0x80, 0xBF), (0x80, 0xBF)]
  else if lead = 0xF0 then [(0x90, 0xBF), (0x80, 0xBF), (0x80, 0xBF)]
  else if lead ≤ 0xF3 then [(0x80, 0xBF), (0x80, 0xBF), (0x80, 0xBF)]
  else if lead = 0xF4 then [(0x80, 0x8F), (0x80, 0xBF), (0x80, 0xBF)]
  else []

/-- The beginning of a character: the ranges of the bytes to come, and its bits so far. -/
structure Pending where
  ranges : List (ℕ × ℕ)
  value : ℕ
  deriving DecidableEq

/-- Between characters. -/
def idle : Pending := ⟨[], 0⟩

/-- The first byte of a character. -/
def firstByte (b : UInt8) : List Char × Pending :=
  if b.toNat < 0x80 then ([Char.ofNat b.toNat], idle)
  else
    match following b.toNat with
    | [] => ([replacement], idle)
    | ranges => ([], ⟨ranges, b.toNat % 2 ^ (6 - ranges.length)⟩)

/-- A byte, after the beginning of a character. -/
def accept (s : Pending) (b : UInt8) : List Char × Pending :=
  match s.ranges with
  | [] => firstByte b
  | (low, high) :: more =>
      if low ≤ b.toNat ∧ b.toNat ≤ high then
        let value := s.value * 64 + b.toNat % 64
        if more.isEmpty then ([Char.ofNat value], idle) else ([], ⟨more, value⟩)
      else
        let (out, s) := firstByte b
        (replacement :: out, s)

/-- The characters decoded from some bytes, and what is pending after them. -/
def feed : Pending → List UInt8 → List Char × Pending
  | s, [] => ([], s)
  | s, b :: rest =>
      let (out, s) := accept s b
      let (later, s) := feed s rest
      (out ++ later, s)

/-- `String::from_utf8_lossy`. -/
def fromUtf8Lossy (bytes : List UInt8) : List Char :=
  let (out, s) := feed idle bytes
  if s.ranges.isEmpty then out else out ++ [replacement]

/-! ## The bytes of one character -/

section Encoding

/-- A byte in a range. -/
def InRange (range : ℕ × ℕ) (b : UInt8) : Prop := range.1 ≤ b.toNat ∧ b.toNat ≤ range.2

/-- The bits of the bytes that follow, after those of the first byte. -/
def bits (first : ℕ) (bytes : List UInt8) : ℕ :=
  bytes.foldl (fun value b => value * 64 + b.toNat % 64) first

/-- A code point as several bytes. -/
structure Encodes (v : ℕ) (lead : UInt8) (rest : List UInt8) : Prop where
  notAscii : 0x80 ≤ lead.toNat
  follows : List.Forall₂ InRange (following lead.toNat) rest
  several : rest ≠ []
  value : bits (lead.toNat % 2 ^ (6 - rest.length)) rest = v

/-- A byte that always follows. -/
theorem inRange_tail (n : ℕ) : InRange (0x80, 0xBF) (UInt8.ofNat (n % 0x40 + 0x80)) := by
  constructor <;> simp only [UInt8.toNat_ofNat'] <;> omega

variable {v : ℕ}

theorem encodes_two (above : 0x7f < v) (below : v ≤ 0x7ff) :
    Encodes v (UInt8.ofNat (v / 64 % 0x20 + 0xc0)) [UInt8.ofNat (v % 0x40 + 0x80)] := by
  have lead : (UInt8.ofNat (v / 64 % 0x20 + 0xc0)).toNat = v / 64 + 0xc0 := by
    simp only [UInt8.toNat_ofNat']
    omega
  have ranges : following (v / 64 + 0xc0) = [(0x80, 0xBF)] := by
    rw [following, if_neg (by omega), if_pos (by omega)]
  refine ⟨by omega, ?_, by simp, ?_⟩
  · rw [lead, ranges]
    exact .cons (inRange_tail v) .nil
  · simp only [bits, List.foldl_cons, List.foldl_nil, lead, UInt8.toNat_ofNat',
      List.length_singleton]
    omega

theorem encodes_three (valid : v < 0xd800 ∨ 0xdfff < v) (above : 0x7ff < v) (below : v ≤ 0xffff) :
    Encodes v (UInt8.ofNat (v / 4096 % 0x10 + 0xe0))
      [UInt8.ofNat (v / 64 % 0x40 + 0x80), UInt8.ofNat (v % 0x40 + 0x80)] := by
  have lead : (UInt8.ofNat (v / 4096 % 0x10 + 0xe0)).toNat = v / 4096 + 0xe0 := by
    simp only [UInt8.toNat_ofNat']
    omega
  have second : (UInt8.ofNat (v / 64 % 0x40 + 0x80)).toNat = v / 64 % 0x40 + 0x80 := by
    simp only [UInt8.toNat_ofNat']
    omega
  refine ⟨by omega, ?_, by simp, ?_⟩
  · rw [lead]
    unfold following
    rw [if_neg (by omega), if_neg (by omega)]
    split_ifs <;> first | omega | refine .cons ?_ (.cons (inRange_tail v) .nil)
    all_goals
      rw [InRange, second]
      omega
  · simp only [bits, List.foldl_cons, List.foldl_nil, lead, second, UInt8.toNat_ofNat',
      List.length_cons, List.length_nil]
    omega

theorem encodes_four (above : 0xffff < v) (below : v < 0x110000) :
    Encodes v (UInt8.ofNat (v / 262144 % 0x08 + 0xf0))
      [UInt8.ofNat (v / 4096 % 0x40 + 0x80), UInt8.ofNat (v / 64 % 0x40 + 0x80),
        UInt8.ofNat (v % 0x40 + 0x80)] := by
  have lead : (UInt8.ofNat (v / 262144 % 0x08 + 0xf0)).toNat = v / 262144 + 0xf0 := by
    simp only [UInt8.toNat_ofNat']
    omega
  have second : (UInt8.ofNat (v / 4096 % 0x40 + 0x80)).toNat = v / 4096 % 0x40 + 0x80 := by
    simp only [UInt8.toNat_ofNat']
    omega
  have third : (UInt8.ofNat (v / 64 % 0x40 + 0x80)).toNat = v / 64 % 0x40 + 0x80 := by
    simp only [UInt8.toNat_ofNat']
    omega
  have fourth : (UInt8.ofNat (v % 0x40 + 0x80)).toNat = v % 0x40 + 0x80 := by
    simp only [UInt8.toNat_ofNat']
    omega
  refine ⟨by omega, ?_, by simp, ?_⟩
  · rw [lead]
    unfold following
    rw [if_neg (by omega), if_neg (by omega)]
    split_ifs <;> first
      | omega
      | refine .cons ?_ (.cons (inRange_tail (v / 64)) (.cons (inRange_tail v) .nil))
    all_goals
      rw [InRange, second]
      omega
  · simp only [bits, List.foldl_cons, List.foldl_nil, lead, second, third, fourth,
      List.length_cons, List.length_nil]
    omega

/-- A character is one byte below 128, or several bytes. -/
theorem utf8EncodeChar_cases (c : Char) :
    c.toNat < 0x80 ∧ String.utf8EncodeChar c = [UInt8.ofNat c.toNat] ∨
      ∃ lead rest, String.utf8EncodeChar c = lead :: rest ∧ Encodes c.toNat lead rest := by
  have valid : c.toNat < 0xd800 ∨ 0xdfff < c.toNat ∧ c.toNat < 0x110000 := c.valid
  have same : c.val.toNat = c.toNat := rfl
  unfold String.utf8EncodeChar
  simp only [same]
  split_ifs with one two three
  · exact Or.inl ⟨by omega, rfl⟩
  · exact Or.inr ⟨_, _, rfl, encodes_two (by omega) two⟩
  · exact Or.inr ⟨_, _, rfl, encodes_three (by omega) (by omega) three⟩
  · exact Or.inr ⟨_, _, rfl, encodes_four (by omega) (by omega)⟩

theorem Encodes.following_ne_nil {lead : UInt8} {rest : List UInt8}
    (encodes : Encodes v lead rest) : following lead.toNat ≠ [] := by
  intro none
  have follows := encodes.follows
  rw [none, List.forall₂_nil_left_iff] at follows
  exact encodes.several follows

/-- The first byte of several is not a continuation. -/
theorem Encodes.lead_ge {lead : UInt8} {rest : List UInt8} (encodes : Encodes v lead rest) :
    0xC2 ≤ lead.toNat := by
  by_contra small
  exact encodes.following_ne_nil (by rw [following, if_pos (by omega)])

theorem isContinuation_of_forall₂ {ranges : List (ℕ × ℕ)} {rest : List UInt8}
    (tails : ∀ range ∈ ranges, 0x80 ≤ range.1 ∧ range.2 ≤ 0xBF)
    (follows : List.Forall₂ InRange ranges rest) : ∀ b ∈ rest, isContinuation b = true := by
  induction follows with
  | nil => exact fun _ none => absurd none List.not_mem_nil
  | @cons range b ranges rest inRange _ inductionHypothesis =>
      obtain ⟨here, later⟩ := List.forall_mem_cons.mp tails
      refine List.forall_mem_cons.mpr ⟨?_, inductionHypothesis later⟩
      rw [isContinuation, decide_eq_true_eq]
      exact ⟨here.1.trans inRange.1, Nat.lt_succ_of_le (inRange.2.trans here.2)⟩

/-- The others are. -/
theorem Encodes.isContinuation_of_mem {lead : UInt8} {rest : List UInt8}
    (encodes : Encodes v lead rest) : ∀ b ∈ rest, isContinuation b = true := by
  refine isContinuation_of_forall₂ ?_ encodes.follows
  unfold following
  split_ifs <;> simp

end Encoding

/-! ## Decoding the bytes of text -/

section Decoding

theorem feed_append (s : Pending) (front back : List UInt8) :
    feed s (front ++ back) =
      ((feed s front).1 ++ (feed (feed s front).2 back).1, (feed (feed s front).2 back).2) := by
  induction front generalizing s with
  | nil => rfl
  | cons b rest inductionHypothesis =>
      rw [List.cons_append, feed, feed]
      simp only [inductionHypothesis, List.append_assoc]

variable {ranges : List (ℕ × ℕ)} {bytes : List UInt8}

/-- The bytes that follow complete a character. -/
theorem feed_ranges (follows : List.Forall₂ InRange ranges bytes) (several : bytes ≠ [])
    (value : ℕ) : feed ⟨ranges, value⟩ bytes = ([Char.ofNat (bits value bytes)], idle) := by
  induction follows generalizing value with
  | nil => exact absurd rfl several
  | @cons range b ranges bytes inRange follows inductionHypothesis =>
      obtain ⟨low, high⟩ := range
      have inRange : low ≤ b.toNat ∧ b.toNat ≤ high := inRange
      rw [feed, accept]
      simp only [if_pos inRange]
      cases follows with
      | nil => rfl
      | cons later rest =>
          have complete := inductionHypothesis (List.cons_ne_nil _ _) (value * 64 + b.toNat % 64)
          simp only [List.isEmpty_cons, Bool.false_eq_true, if_false, complete]
          rfl

/-- Fewer bytes leave it pending. -/
theorem feed_ranges_take (follows : List.Forall₂ InRange ranges bytes) (value : ℕ) {k : ℕ}
    (short : k < bytes.length) :
    ∃ s, feed ⟨ranges, value⟩ (bytes.take k) = ([], s) ∧ s.ranges ≠ [] := by
  induction follows generalizing value k with
  | nil => exact absurd short (Nat.not_lt_zero k)
  | @cons range b ranges bytes inRange follows inductionHypothesis =>
      obtain ⟨low, high⟩ := range
      have inRange : low ≤ b.toNat ∧ b.toNat ≤ high := inRange
      cases k with
      | zero => exact ⟨_, rfl, List.cons_ne_nil _ _⟩
      | succ k =>
          have shorter : k < bytes.length := Nat.lt_of_succ_lt_succ short
          obtain ⟨s, fed, pending⟩ :=
            inductionHypothesis (value * 64 + b.toNat % 64) shorter
          refine ⟨s, ?_, pending⟩
          rw [List.take_succ_cons, feed, accept]
          simp only [if_pos inRange]
          cases follows with
          | nil => exact absurd shorter (Nat.not_lt_zero k)
          | cons later rest =>
              simp only [List.isEmpty_cons, Bool.false_eq_true, if_false, fed, List.nil_append]

/-- The first of several bytes. -/
theorem firstByte_of_encodes {v : ℕ} {lead : UInt8} {rest : List UInt8}
    (encodes : Encodes v lead rest) : firstByte lead =
      ([], ⟨following lead.toNat, lead.toNat % 2 ^ (6 - rest.length)⟩) := by
  have same : (following lead.toNat).length = rest.length := encodes.follows.length_eq
  rw [firstByte, if_neg (not_lt.mpr encodes.notAscii), ← same]
  cases ranges : following lead.toNat with
  | nil => exact absurd ranges encodes.following_ne_nil
  | cons range more => rfl

/-- A decoder that is fed the bytes of a character has decoded it. -/
theorem feed_encode (c : Char) : feed idle (String.utf8EncodeChar c) = ([c], idle) := by
  rcases utf8EncodeChar_cases c with ⟨ascii, single⟩ | ⟨lead, rest, bytes, encodes⟩
  · have value : (UInt8.ofNat c.toNat).toNat = c.toNat := by
      simp only [UInt8.toNat_ofNat']
      omega
    rw [single]
    simp only [feed, accept, idle, firstByte, value, if_pos ascii, Char.ofNat_toNat]
    rfl
  · rw [bytes, feed, accept]
    simp only [idle, firstByte_of_encodes encodes, List.nil_append]
    rw [feed_ranges encodes.follows encodes.several, encodes.value, Char.ofNat_toNat]
    rfl

/-- Fed with fewer bytes, it has a character pending. -/
theorem feed_encode_take {c : Char} {k : ℕ} (positive : 0 < k)
    (short : k < (String.utf8EncodeChar c).length) :
    ∃ s, feed idle ((String.utf8EncodeChar c).take k) = ([], s) ∧ s.ranges ≠ [] := by
  obtain ⟨k, rfl⟩ := Nat.exists_eq_add_one_of_ne_zero positive.ne'
  rcases utf8EncodeChar_cases c with ⟨_, single⟩ | ⟨lead, rest, bytes, encodes⟩
  · rw [single, List.length_singleton] at short
    omega
  · rw [bytes, List.length_cons] at short
    obtain ⟨s, fed, pending⟩ := feed_ranges_take encodes.follows
      (lead.toNat % 2 ^ (6 - rest.length)) (Nat.lt_of_succ_lt_succ short)
    refine ⟨s, ?_, pending⟩
    rw [bytes, List.take_succ_cons, feed, accept]
    simp only [idle, firstByte_of_encodes encodes, List.nil_append, fed]

theorem utf8_cons (c : Char) (text : List Char) :
    utf8 (c :: text) = String.utf8EncodeChar c ++ utf8 text := List.flatMap_cons

theorem utf8_singleton (c : Char) : utf8 [c] = String.utf8EncodeChar c := by
  simp [utf8]

theorem utf8_append (front back : List Char) : utf8 (front ++ back) = utf8 front ++ utf8 back :=
  List.flatMap_append

theorem feed_utf8 (text : List Char) : feed idle (utf8 text) = (text, idle) := by
  induction text with
  | nil => rfl
  | cons c text inductionHypothesis =>
      rw [utf8_cons, feed_append, feed_encode, inductionHypothesis]
      rfl

/-- Text before some bytes is decoded to itself. -/
theorem fromUtf8Lossy_utf8_append (text : List Char) (rest : List UInt8) :
    fromUtf8Lossy (utf8 text ++ rest) = text ++ fromUtf8Lossy rest := by
  simp only [fromUtf8Lossy, feed_append, feed_utf8]
  split_ifs
  · rfl
  · rw [List.append_assoc]

theorem fromUtf8Lossy_nil : fromUtf8Lossy [] = [] := rfl

/-- Text is decoded to itself. -/
theorem fromUtf8Lossy_utf8 (text : List Char) : fromUtf8Lossy (utf8 text) = text := by
  have whole := fromUtf8Lossy_utf8_append text []
  rwa [fromUtf8Lossy_nil, List.append_nil, List.append_nil] at whole

/-- Text is known by its bytes. -/
theorem utf8_injective : Function.Injective utf8 :=
  Function.LeftInverse.injective fromUtf8Lossy_utf8

/-- Only U+0000 has a zero byte. -/
theorem zero_mem_utf8 {text : List Char} (zero : 0 ∈ utf8 text) : '\x00' ∈ text := by
  obtain ⟨c, member, byte⟩ := List.mem_flatMap.mp zero
  rcases utf8EncodeChar_cases c with ⟨ascii, single⟩ | ⟨lead, rest, bytes, encodes⟩
  · rw [single, List.mem_singleton] at byte
    have value := congrArg UInt8.toNat byte
    simp only [UInt8.toNat_ofNat', UInt8.toNat_ofNat] at value
    have none : c.toNat = 0 := by omega
    have same : c = '\x00' := by rw [← Char.ofNat_toNat c, none]
    exact same ▸ member
  · rw [bytes] at byte
    rcases List.mem_cons.mp byte with first | later
    · have := encodes.lead_ge
      rw [← first] at this
      exact absurd this (by decide)
    · have := encodes.isContinuation_of_mem 0 later
      exact absurd this (by decide)

/-- The bytes of an array, one after the other. -/
theorem toList_eq_data (bytes : ByteArray) : bytes.toList = bytes.data.toList := by
  have loop : ∀ (left i : ℕ) (read : List UInt8), bytes.size = i + left →
      ByteArray.toList.loop bytes i read = read.reverse ++ bytes.data.toList.drop i := by
    intro left
    induction left with
    | zero =>
        intro i read atEnd
        rw [ByteArray.toList.loop, if_neg (by omega), List.drop_of_length_le, List.append_nil]
        exact le_of_eq atEnd
    | succ left inductionHypothesis =>
        intro i read inside
        have here : i < bytes.data.toList.length := by
          have size : bytes.size = bytes.data.toList.length := rfl
          omega
        have byte : bytes.get! i = bytes.data.toList[i] := by
          obtain ⟨bytes⟩ := bytes
          have inside : i < bytes.size := here
          exact getElem!_pos bytes i inside
        rw [ByteArray.toList.loop, if_pos (by omega), inductionHypothesis _ _ (by omega),
          List.drop_eq_getElem_cons here, byte, List.reverse_cons, List.append_assoc,
          List.singleton_append]
  simpa [ByteArray.toList] using loop bytes.size 0 [] (Nat.zero_add _).symm

/-- `as_bytes`. -/
theorem toList_toUTF8 (text : String) : text.toUTF8.toList = utf8 text.toList := by
  rw [toList_eq_data, String.toUTF8_eq_toByteArray, ← String.utf8Encode_toList, List.utf8Encode,
    List.toList_data_toByteArray]
  rfl

/-- Text begins at a boundary. -/
theorem isBoundary_utf8 (text : List Char) : isBoundary (utf8 text) = true := by
  cases text with
  | nil => rfl
  | cons c rest =>
      rw [utf8_cons]
      rcases utf8EncodeChar_cases c with ⟨ascii, single⟩ | ⟨lead, more, bytes, encodes⟩
      · rw [single, List.singleton_append, isBoundary, Bool.not_eq_true', isContinuation,
          decide_eq_false_iff_not]
        simp only [UInt8.toNat_ofNat']
        omega
      · have := encodes.lead_ge
        rw [bytes, List.cons_append, isBoundary, Bool.not_eq_true', isContinuation,
          decide_eq_false_iff_not]
        omega

/-- `&text[..k]`, or `none` when the slice panics. -/
def sliceTo (k : ℕ) (text : List Char) : Option (List Char) :=
  if k ≤ (utf8 text).length ∧ isBoundary ((utf8 text).drop k) = true then
    some (fromUtf8Lossy ((utf8 text).take k))
  else none

/-- A cut character is decoded to a replacement character. -/
theorem fromUtf8Lossy_encode_take {c : Char} {k : ℕ} (positive : 0 < k)
    (short : k < (String.utf8EncodeChar c).length) :
    fromUtf8Lossy ((String.utf8EncodeChar c).take k) = [replacement] := by
  obtain ⟨s, fed, pending⟩ := feed_encode_take positive short
  have notEmpty : s.ranges.isEmpty = false := by simpa using pending
  simp only [fromUtf8Lossy, fed, notEmpty, Bool.false_eq_true, if_false, List.nil_append]

/-- What is left of a text that is cut after a number of bytes. -/
def IsCut (text : List Char) (k : ℕ) (out : List Char) : Prop :=
  out <+: text ∨ ∃ front c back, text = front ++ c :: back ∧ (utf8 front).length < k ∧
    k < (utf8 front).length + (String.utf8EncodeChar c).length ∧ out = front ++ [replacement]

/-- Before the first byte no character is cut. -/
theorem isCut_zero {text out : List Char} : IsCut text 0 out ↔ out <+: text := by
  refine or_iff_left ?_
  rintro ⟨front, _, _, _, after, _⟩
  exact absurd after (Nat.not_lt_zero _)

/-- A cut of a text is one of a longer text. -/
theorem IsCut.append_right {text out : List Char} {k : ℕ} (cut : IsCut text k out)
    (more : List Char) : IsCut (text ++ more) k out := by
  rcases cut with isPrefix | ⟨front, c, back, rfl, after, before, rfl⟩
  · exact Or.inl (isPrefix.trans (List.prefix_append text more))
  · exact Or.inr ⟨front, c, back ++ more, by rw [List.append_assoc, List.cons_append], after,
      before, rfl⟩

/-- A cut after a whole text. -/
theorem IsCut.append_left {text out : List Char} {k : ℕ} (cut : IsCut text k out)
    (front : List Char) : IsCut (front ++ text) ((utf8 front).length + k) (front ++ out) := by
  rcases cut with isPrefix | ⟨front', c, back, rfl, after, before, rfl⟩
  · exact Or.inl ((List.prefix_append_right_inj front).mpr isPrefix)
  · refine Or.inr ⟨front ++ front', c, back, by rw [List.append_assoc], ?_, ?_,
      by rw [List.append_assoc]⟩
    · rw [utf8_append, List.length_append]
      omega
    · rw [utf8_append, List.length_append]
      omega

/-- **A cut of text is decoded to a beginning of it**, or to one with a replacement character for
the character that is cut. -/
theorem fromUtf8Lossy_take (text : List Char) (k : ℕ) :
    IsCut text k (fromUtf8Lossy ((utf8 text).take k)) := by
  induction text generalizing k with
  | nil =>
      rw [utf8, List.flatMap_nil, List.take_nil]
      exact Or.inl (List.prefix_refl _)
  | cons c text inductionHypothesis =>
      rw [utf8_cons]
      rcases Nat.eq_zero_or_pos k with rfl | positive
      · exact Or.inl (List.nil_prefix)
      rcases lt_or_ge k (String.utf8EncodeChar c).length with short | whole
      · refine Or.inr ⟨[], c, text, rfl, positive, by simpa [utf8] using short, ?_⟩
        rw [List.take_append_of_le_length short.le, fromUtf8Lossy_encode_take positive short]
        rfl
      · obtain ⟨j, rfl⟩ := Nat.exists_eq_add_of_le whole
        have split : (String.utf8EncodeChar c ++ utf8 text).take
            ((String.utf8EncodeChar c).length + j) = utf8 [c] ++ (utf8 text).take j := by
          rw [List.take_length_add_append, utf8_singleton]
        rw [split, fromUtf8Lossy_utf8_append]
        have later := (inductionHypothesis j).append_left [c]
        rwa [utf8_singleton] at later

end Decoding

end ProtocolExplorer.Lib
