import ProtocolExplorer.Lib.Utf8

/-!
# Container logs

Docker sends the output of a container in frames: a stream, three zero bytes, the size of the
payload and the payload.  `deframe_logs` takes the payloads out; a buffer in which it finds no frame
is taken as text.

* `deframeLoop_take` — what the loop finds in a cut of a stream, by induction over its frames;
* `deframeLogs_exact_iff` — **whole streams are undone, and cuts of them exactly outside the first
  header**;
* `cutHeader_raw` — a cut inside the first header.
-/

set_option autoImplicit false

namespace ProtocolExplorer.Diagnostics

open ProtocolExplorer.Lib

/-! ## The adapter -/

/-- `u32::from_be_bytes`. -/
def u32FromBeBytes (b0 b1 b2 b3 : UInt8) : ℕ :=
  ((b0.toNat * 256 + b1.toNat) * 256 + b2.toNat) * 256 + b3.toNat

/-- The local variables of the loop when it ends. -/
structure Deframed where
  out : List Char
  valid : Bool
  any : Bool

/-- The loop of `deframe_logs` over the bytes from `i` on. -/
def deframeLoop (buf : List UInt8) (out : List Char) (any : Bool) : Deframed :=
  match buf with
  | stream :: z1 :: z2 :: z3 :: s0 :: s1 :: s2 :: s3 :: body =>
      if 2 < stream ∨ z1 ≠ 0 ∨ z2 ≠ 0 ∨ z3 ≠ 0 then ⟨out, false, any⟩
      else
        let size := u32FromBeBytes s0 s1 s2 s3
        -- a partial trailing frame
        if body.length < size then ⟨out ++ fromUtf8Lossy body, true, true⟩
        else deframeLoop (body.drop size) (out ++ fromUtf8Lossy (body.take size)) true
  | _ => ⟨out, true, any⟩
termination_by buf.length
decreasing_by simp only [List.length_drop, List.length_cons]; omega

/-- `deframe_logs`. -/
def deframeLogs (buf : List UInt8) : List Char :=
  let found := deframeLoop buf [] false
  if found.valid && found.any then found.out else fromUtf8Lossy buf

/-! ## Frames -/

/-- A frame of stdin, stdout or stderr. -/
structure Frame where
  stream : UInt8
  payload : List Char
  known : stream ≤ 2
  short : (utf8 payload).length < 2 ^ 32

/-- The bytes of a size, the largest first. -/
def beBytes (n : ℕ) : List UInt8 :=
  [UInt8.ofNat (n / 2 ^ 24), UInt8.ofNat (n / 2 ^ 16), UInt8.ofNat (n / 2 ^ 8), UInt8.ofNat n]

def Frame.header (f : Frame) : List UInt8 :=
  [f.stream, 0, 0, 0] ++ beBytes (utf8 f.payload).length

def Frame.bytes (f : Frame) : List UInt8 := f.header ++ utf8 f.payload

/-- What Docker sends. -/
def streamOf (frames : List Frame) : List UInt8 := frames.flatMap Frame.bytes

/-- What the container has written. -/
def textOf (frames : List Frame) : List Char := frames.flatMap Frame.payload

/-- How many of the first bytes of a stream are of payloads. -/
def payloadBefore : List Frame → ℕ → ℕ
  | [], _ => 0
  | f :: rest, k =>
      min (k - 8) (utf8 f.payload).length + payloadBefore rest (k - f.bytes.length)

/-! ## The loop -/

section Loop

variable {f : Frame} {out : List Char} {any : Bool}

theorem u32FromBeBytes_beBytes {n : ℕ} (small : n < 2 ^ 32) :
    u32FromBeBytes (UInt8.ofNat (n / 2 ^ 24)) (UInt8.ofNat (n / 2 ^ 16)) (UInt8.ofNat (n / 2 ^ 8))
      (UInt8.ofNat n) = n := by
  simp only [u32FromBeBytes, UInt8.toNat_ofNat']
  omega

/-- Fewer bytes than a header end the loop. -/
theorem deframeLoop_short {buf : List UInt8} (short : buf.length < 8) :
    deframeLoop buf out any = ⟨out, true, any⟩ := by
  unfold deframeLoop
  split
  · simp only [List.length_cons] at short
    omega
  · rfl

/-- A header, and what follows it. -/
theorem deframeLoop_header (f : Frame) (body : List UInt8) (out : List Char) (any : Bool) :
    deframeLoop (f.header ++ body) out any =
      if body.length < (utf8 f.payload).length then ⟨out ++ fromUtf8Lossy body, true, true⟩
      else deframeLoop (body.drop (utf8 f.payload).length)
        (out ++ fromUtf8Lossy (body.take (utf8 f.payload).length)) true := by
  have known : ¬(2 < f.stream ∨ (0 : UInt8) ≠ 0 ∨ (0 : UInt8) ≠ 0 ∨ (0 : UInt8) ≠ 0) := by
    simpa using f.known
  rw [Frame.header, beBytes]
  simp only [List.cons_append, List.nil_append]
  rw [deframeLoop, if_neg known]
  simp only [u32FromBeBytes_beBytes f.short]

/-- A whole frame. -/
theorem deframeLoop_frame (f : Frame) (rest : List UInt8) (out : List Char) (any : Bool) :
    deframeLoop (f.bytes ++ rest) out any = deframeLoop rest (out ++ f.payload) true := by
  rw [Frame.bytes, List.append_assoc, deframeLoop_header, if_neg (by simp), List.drop_left,
    List.take_left, fromUtf8Lossy_utf8]

theorem length_header (f : Frame) : f.header.length = 8 := rfl

theorem length_bytes (f : Frame) : f.bytes.length = 8 + (utf8 f.payload).length := by
  rw [Frame.bytes, List.length_append, length_header]

theorem payloadBefore_zero (frames : List Frame) : payloadBefore frames 0 = 0 := by
  induction frames with
  | nil => rfl
  | cons f rest inductionHypothesis =>
      rw [payloadBefore, Nat.zero_sub, Nat.zero_sub, inductionHypothesis, Nat.zero_min]

/-- No byte of a header is of a payload. -/
theorem payloadBefore_header (frames : List Frame) {k : ℕ} (inHeader : k ≤ 8) :
    payloadBefore frames k = 0 := by
  cases frames with
  | nil => rfl
  | cons f rest =>
      have none : k - f.bytes.length = 0 := by
        rw [length_bytes]
        omega
      rw [payloadBefore, none, payloadBefore_zero, Nat.sub_eq_zero_of_le inHeader, Nat.zero_min]

/-- **What the loop finds in a cut of a stream**: a cut of its text, and a frame if the first header
is there. -/
theorem deframeLoop_take (frames : List Frame) (k : ℕ) (out : List Char) (any : Bool) :
    ∃ cut, IsCut (textOf frames) (payloadBefore frames k) cut ∧
      deframeLoop ((streamOf frames).take k) out any =
        ⟨out ++ cut, true, any || decide (frames ≠ [] ∧ 8 ≤ k)⟩ := by
  induction frames generalizing k out any with
  | nil =>
      refine ⟨[], Or.inl List.nil_prefix, ?_⟩
      rw [streamOf, List.flatMap_nil, List.take_nil, deframeLoop_short (by decide)]
      simp
  | cons f rest inductionHypothesis =>
      have bytes : streamOf (f :: rest) = f.bytes ++ streamOf rest := List.flatMap_cons
      have text : textOf (f :: rest) = f.payload ++ textOf rest := List.flatMap_cons
      have size := length_bytes f
      rw [bytes, text, payloadBefore]
      rcases lt_or_ge k 8 with inHeader | headerRead
      · -- the cut is inside the header
        have nothing : k - 8 = 0 := by omega
        have none : k - f.bytes.length = 0 := by omega
        refine ⟨[], Or.inl List.nil_prefix, ?_⟩
        rw [deframeLoop_short ((List.length_take_le _ _).trans_lt inHeader)]
        simp [not_le.mpr inHeader]
      rcases lt_or_ge k f.bytes.length with inPayload | whole
      · -- it is inside the payload
        have none : k - f.bytes.length = 0 := by omega
        have part : min (k - 8) (utf8 f.payload).length = k - 8 := by omega
        have cutBytes : (f.bytes ++ streamOf rest).take k =
            f.header ++ (utf8 f.payload).take (k - 8) := by
          rw [List.take_append_of_le_length inPayload.le, Frame.bytes, List.take_append,
            length_header, List.take_of_length_le (by rw [length_header]; exact headerRead)]
        refine ⟨fromUtf8Lossy ((utf8 f.payload).take (k - 8)), ?_, ?_⟩
        · rw [none, payloadBefore_zero, Nat.add_zero, part]
          exact (fromUtf8Lossy_take f.payload (k - 8)).append_right _
        · rw [cutBytes, deframeLoop_header, if_pos (by rw [List.length_take]; omega)]
          simp [headerRead]
      · -- the frame is whole
        obtain ⟨j, rfl⟩ := Nat.exists_eq_add_of_le whole
        obtain ⟨cut, isCut, looped⟩ := inductionHypothesis j (out ++ f.payload) true
        have all : min (f.bytes.length + j - 8) (utf8 f.payload).length =
            (utf8 f.payload).length := by omega
        have later : f.bytes.length + j - f.bytes.length = j := by omega
        refine ⟨f.payload ++ cut, ?_, ?_⟩
        · rw [all, later]
          exact isCut.append_left f.payload
        · rw [List.take_length_add_append, deframeLoop_frame, looped, List.append_assoc]
          simp [headerRead]

/-- The whole stream. -/
theorem deframeLoop_streamOf (frames : List Frame) (out : List Char) (any : Bool) :
    deframeLoop (streamOf frames) out any =
      ⟨out ++ textOf frames, true, any || decide (frames ≠ [])⟩ := by
  induction frames generalizing out any with
  | nil =>
      rw [streamOf, List.flatMap_nil, deframeLoop_short (by decide)]
      simp [textOf]
  | cons f rest inductionHypothesis =>
      have bytes : streamOf (f :: rest) = f.bytes ++ streamOf rest := List.flatMap_cons
      have text : textOf (f :: rest) = f.payload ++ textOf rest := List.flatMap_cons
      rw [bytes, text, deframeLoop_frame, inductionHypothesis, List.append_assoc]
      simp

end Loop

/-! ## Streams and their cuts -/

/-- De-framing undoes framing. -/
theorem deframeLogs_streamOf (frames : List Frame) :
    deframeLogs (streamOf frames) = textOf frames := by
  rw [deframeLogs, deframeLoop_streamOf]
  cases frames with
  | nil => rfl
  | cons f rest => simp

/-- **A whole stream gives its text; a cut of it gives a cut of the text unless it is inside the
first header, where the text would have to begin with what is left of the header.** -/
theorem deframeLogs_exact_iff (frames : List Frame) :
    deframeLogs (streamOf frames) = textOf frames ∧
      ∀ k, IsCut (textOf frames) (payloadBefore frames k)
          (deframeLogs ((streamOf frames).take k)) ↔
        frames = [] ∨ k = 0 ∨ 8 ≤ k ∨ fromUtf8Lossy ((streamOf frames).take k) <+: textOf frames := by
  refine ⟨deframeLogs_streamOf frames, fun k => ?_⟩
  obtain ⟨cut, isCut, looped⟩ := deframeLoop_take frames k [] false
  have result : deframeLogs ((streamOf frames).take k) =
      if frames ≠ [] ∧ 8 ≤ k then cut else fromUtf8Lossy ((streamOf frames).take k) := by
    rw [deframeLogs, looped]
    simp
  rw [result]
  split_ifs with framed
  · exact iff_of_true isCut (Or.inr (Or.inr (Or.inl framed.2)))
  · by_cases empty : frames = []
    · refine iff_of_true (Or.inl ?_) (Or.inl empty)
      rw [empty, streamOf, List.flatMap_nil, List.take_nil]
      exact List.nil_prefix
    · have inHeader : k < 8 := lt_of_not_ge fun large => framed ⟨empty, large⟩
      rw [payloadBefore_header frames inHeader.le, isCut_zero]
      constructor
      · exact fun isPrefix => Or.inr (Or.inr (Or.inr isPrefix))
      · rintro (none | rfl | large | isPrefix)
        · exact absurd none empty
        · exact List.nil_prefix
        · exact absurd large (not_le.mpr inHeader)
        · exact isPrefix

/-- The frame of one line. -/
def lineFrame : Frame := ⟨1, ['h', 'i', '\n'], by decide, by decide⟩

/-- The first byte of its header alone is taken as text. -/
theorem cutHeader_raw : ¬ ∀ (frames : List Frame) (k : ℕ),
    IsCut (textOf frames) (payloadBefore frames k) (deframeLogs ((streamOf frames).take k)) := by
  intro claim
  have cut := claim [lineFrame] 1
  have short : ((streamOf [lineFrame]).take 1).length < 8 := by decide
  rw [payloadBefore_header _ (by decide), isCut_zero, deframeLogs, deframeLoop_short short] at cut
  exact absurd cut (by decide)

end ProtocolExplorer.Diagnostics
