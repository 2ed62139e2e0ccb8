import Mathlib

/-!
# Comma-separated values

A file is a sequence of records, each a line of fields between commas.  A field that holds a
comma, a quote or a line break stands in quotes, with its own quotes doubled.

* `read` — a reader, character by character, that fails at a quote out of place;
* `read_lines` — **what the writer writes is read back**, whatever the fields hold.
-/

set_option autoImplicit false

namespace ProtocolExplorer.Lib.Csv

/-- A character that calls for quotes. -/
def isSpecial (c : Char) : Bool := c = ',' || c = '"' || c = '\n'

/-- A character between quotes. -/
def doubled (c : Char) : List Char := if c = '"' then ['"', '"'] else [c]

/-- A field as it is written. -/
def escape (value : List Char) : List Char :=
  if value.any isSpecial then '"' :: value.flatMap doubled ++ ['"'] else value

/-- A line, from its fields as they are written. -/
def line : List (List Char) → List Char
  | [] => ['\n']
  | [cell] => cell ++ ['\n']
  | cell :: next :: rest => cell ++ ',' :: line (next :: rest)

/-- Text without special characters is written as it is. -/
theorem escape_of_plain {text : List Char} (plain : ∀ c ∈ text, isSpecial c = false) :
    escape text = text := by
  refine if_neg fun special => ?_
  obtain ⟨c, member, found⟩ := List.any_eq_true.mp special
  exact absurd found (Bool.eq_false_iff.mp (plain c member))

/-! ## The reader -/

inductive Mode where
  /-- At the first character of a field. -/
  | start
  | plain
  | quoted
  /-- After a quote in a quoted field. -/
  | closing
  deriving DecidableEq, Repr

structure Reader where
  records : List (List (List Char))
  fields : List (List Char)
  field : List Char
  mode : Mode

namespace Reader

def endField (s : Reader) : Reader := ⟨s.records, s.fields ++ [s.field], [], .start⟩

def endRecord (s : Reader) : Reader := ⟨s.records ++ [s.fields ++ [s.field]], [], [], .start⟩

def push (s : Reader) (c : Char) (mode : Mode) : Reader :=
  ⟨s.records, s.fields, s.field ++ [c], mode⟩

def step (s : Reader) (c : Char) : Option Reader :=
  match s.mode with
  | .quoted => some (if c = '"' then { s with mode := .closing } else s.push c .quoted)
  | .closing =>
      if c = '"' then some (s.push c .quoted)
      else if c = ',' then some s.endField
      else if c = '\n' then some s.endRecord
      else none
  | .start | .plain =>
      if c = ',' then some s.endField
      else if c = '\n' then some s.endRecord
      else if c = '"' then if s.mode = .start then some { s with mode := .quoted } else none
      else some (s.push c .plain)

/-- The records, if the last one is complete. -/
def finish (s : Reader) : Option (List (List (List Char))) :=
  if s.fields = [] ∧ s.mode = .start then some s.records else none

def empty : Reader := ⟨[], [], [], .start⟩

end Reader

/-- The records of a file. -/
def read (text : List Char) : Option (List (List (List Char))) :=
  (text.foldlM Reader.step Reader.empty).bind Reader.finish

/-! ## What is written is read back -/

namespace Reader

/-- A field has been read. -/
structure Read (s : Reader) (value : List Char) (after : Reader) : Prop where
  records : after.records = s.records
  fields : after.fields = s.fields
  field : after.field = value
  open_ : after.mode ≠ .quoted

theorem Read.comma {s after : Reader} {value : List Char} (read : s.Read value after) :
    after.step ',' = some ⟨s.records, s.fields ++ [value], [], .start⟩ := by
  obtain ⟨records, fields, field, isOpen⟩ := read
  rw [← records, ← fields, ← field]
  cases mode : after.mode with
  | quoted => exact absurd mode isOpen
  | start => simp [step, mode, endField]
  | plain => simp [step, mode, endField]
  | closing => simp [step, mode, endField]

theorem Read.newline {s after : Reader} {value : List Char} (read : s.Read value after) :
    after.step '\n' = some ⟨s.records ++ [s.fields ++ [value]], [], [], .start⟩ := by
  obtain ⟨records, fields, field, isOpen⟩ := read
  rw [← records, ← fields, ← field]
  cases mode : after.mode with
  | quoted => exact absurd mode isOpen
  | start => simp [step, mode, endRecord]
  | plain => simp [step, mode, endRecord]
  | closing => simp [step, mode, endRecord]

theorem foldlM_plain {value : List Char} (plain : ∀ c ∈ value, isSpecial c = false) (s : Reader)
    (outside : s.mode = .start ∨ s.mode = .plain) :
    ∃ after, value.foldlM step s = some after ∧ after.records = s.records ∧
      after.fields = s.fields ∧ after.field = s.field ++ value ∧ after.mode ≠ .quoted := by
  induction value generalizing s with
  | nil =>
      refine ⟨s, rfl, rfl, rfl, (List.append_nil _).symm, ?_⟩
      rcases outside with mode | mode <;> rw [mode] <;> decide
  | cons c rest inductionHypothesis =>
      have ordinary := plain c (List.mem_cons_self ..)
      simp only [isSpecial, Bool.or_eq_false_iff, decide_eq_false_iff_not] at ordinary
      obtain ⟨⟨noComma, noQuote⟩, noBreak⟩ := ordinary
      have stepped : s.step c = some (s.push c .plain) := by
        rcases outside with mode | mode <;> simp [step, mode, noComma, noQuote, noBreak]
      obtain ⟨after, ran, records, fields, field, isOpen⟩ := inductionHypothesis
        (fun d member => plain d (List.mem_cons_of_mem c member)) (s.push c .plain) (Or.inr rfl)
      refine ⟨after, ?_, records, fields, ?_, isOpen⟩
      · rw [List.foldlM_cons, stepped]
        exact ran
      · rw [field]
        exact List.append_assoc ..

theorem foldlM_quoted (value : List Char) (s : Reader) (inside : s.mode = .quoted) :
    (value.flatMap doubled).foldlM step s =
      some ⟨s.records, s.fields, s.field ++ value, .quoted⟩ := by
  induction value generalizing s with
  | nil =>
      rw [List.flatMap_nil, List.append_nil, ← inside]
      rfl
  | cons c rest inductionHypothesis =>
      have one : (doubled c).foldlM step s = some (s.push c .quoted) := by
        unfold doubled
        split
        · next quote =>
            subst quote
            simp [step, inside, push]
        · next other => simp [step, inside, other]
      rw [List.flatMap_cons, List.foldlM_append, one]
      refine (inductionHypothesis (s.push c .quoted) rfl).trans ?_
      simp [push]

/-- An escaped field is read from its first character. -/
theorem foldlM_escape (value : List Char) (s : Reader) (ready : s.field = [] ∧ s.mode = .start) :
    ∃ after, (escape value).foldlM step s = some after ∧ s.Read value after := by
  unfold escape
  split
  · have opened : s.step '"' = some { s with mode := .quoted } := by
      simp [step, ready.2]
    refine ⟨⟨s.records, s.fields, value, .closing⟩, ?_, rfl, rfl, rfl, fun same => nomatch same⟩
    rw [List.cons_append, List.foldlM_cons, opened]
    show ((value.flatMap doubled ++ ['"']).foldlM step { s with mode := .quoted }) = _
    rw [List.foldlM_append, foldlM_quoted value _ rfl, ready.1]
    rfl
  · next ordinary =>
      have plain : ∀ c ∈ value, isSpecial c = false := fun c member => by
        by_contra special
        exact ordinary (List.any_eq_true.mpr ⟨c, member, Bool.eq_true_of_not_eq_false special⟩)
      obtain ⟨after, ran, records, fields, field, isOpen⟩ := foldlM_plain plain s (Or.inl ready.2)
      exact ⟨after, ran, records, fields, by rw [field, ready.1]; rfl, isOpen⟩

theorem foldlM_line {values : List (List Char)} (some_field : values ≠ [])
    (records : List (List (List Char))) (fields : List (List Char)) :
    (line (values.map escape)).foldlM step ⟨records, fields, [], .start⟩ =
      some ⟨records ++ [fields ++ values], [], [], .start⟩ := by
  induction values generalizing fields with
  | nil => exact absurd rfl some_field
  | cons value rest inductionHypothesis =>
      obtain ⟨after, ran, read⟩ :=
        foldlM_escape value ⟨records, fields, [], .start⟩ ⟨rfl, rfl⟩
      cases rest with
      | nil =>
          show (escape value ++ ['\n']).foldlM step _ = _
          rw [List.foldlM_append, ran]
          show (after.step '\n').bind (fun s => [].foldlM step s) = _
          rw [read.newline]
          rfl
      | cons next others =>
          show (escape value ++ ',' :: line ((next :: others).map escape)).foldlM step _ = _
          rw [List.foldlM_append, ran]
          show (after.step ',').bind (fun s => (line ((next :: others).map escape)).foldlM step s) = _
          rw [read.comma]
          refine (inductionHypothesis (List.cons_ne_nil next others) (fields ++ [value])).trans ?_
          rw [List.append_assoc]
          rfl

theorem foldlM_lines {table : List (List (List Char))} (some_field : ∀ values ∈ table, values ≠ [])
    (records : List (List (List Char))) :
    (table.flatMap fun values => line (values.map escape)).foldlM step ⟨records, [], [], .start⟩ =
      some ⟨records ++ table, [], [], .start⟩ := by
  induction table generalizing records with
  | nil => rw [List.append_nil]; rfl
  | cons values rest inductionHypothesis =>
      obtain ⟨own, others⟩ := List.forall_mem_cons.mp some_field
      rw [List.flatMap_cons, List.foldlM_append, foldlM_line own]
      refine (inductionHypothesis others (records ++ [[] ++ values])).trans ?_
      rw [List.append_assoc]
      rfl

end Reader

/-- **A file is read back as it was written**, whatever its fields hold. -/
theorem read_lines {table : List (List (List Char))} (some_field : ∀ values ∈ table, values ≠ []) :
    read (table.flatMap fun values => line (values.map escape)) = some table := by
  rw [read, Reader.empty, Reader.foldlM_lines some_field]
  rfl

end ProtocolExplorer.Lib.Csv
