import Rslinker.Protocol.AntiSticky

set_option autoImplicit false

/-! # What `read_one` returns

`nextFrame size bytes` is the message at the front of `bytes`, with `size` the length that has been
read already, if any. `readOne_chunks` says that `read_one`, on a socket that delivers chunks
without errors, reads the least number of chunks that hold this message, and is suspended after
the last chunk when they do not hold one.
-/

namespace Rslinker.AntiStickyStream

/-- The message at the front of `bytes` and the bytes after it; `none` when it is not complete. -/
def nextFrame : Option Nat → Bytes → Option (Bytes × Bytes)
  | some size, bytes =>
      if size ≤ bytes.length then some (bytes.take size, bytes.drop size) else none
  | none, bytes =>
      if 8 ≤ bytes.length then
        let size := leDecode (bytes.take 8)
        if size ≤ (bytes.drop 8).length then
          some ((bytes.drop 8).take size, (bytes.drop 8).drop size)
        else none
      else none

theorem nextFrame_none_of_lt {bytes : Bytes} (h : bytes.length < 8) :
    nextFrame none bytes = none := by
  simp [nextFrame, Nat.not_le.mpr h]

theorem nextFrame_none {bytes : Bytes} (h : 8 ≤ bytes.length) :
    nextFrame none bytes = nextFrame (some (leDecode (bytes.take 8))) (bytes.drop 8) := by
  simp [nextFrame, h]

theorem nextFrame_some {size : Nat} {bytes : Bytes} (h : size ≤ bytes.length) :
    nextFrame (some size) bytes = some (bytes.take size, bytes.drop size) := by
  simp [nextFrame, h]

theorem nextFrame_some_of_lt {size : Nat} {bytes : Bytes} (h : bytes.length < size) :
    nextFrame (some size) bytes = none := by
  simp [nextFrame, Nat.not_le.mpr h]

theorem lt_of_nextFrame_some {size : Nat} {bytes : Bytes} (h : nextFrame (some size) bytes = none) :
    bytes.length < size := by
  by_contra hle
  rw [nextFrame_some (Nat.not_lt.mp hle)] at h
  cases h

/-- The first of the frames in a stream. -/
theorem nextFrame_frame {m : Bytes} (h : m.length < 2 ^ 64) (tail : Bytes) :
    nextFrame none (frame 8 m ++ tail) = some (m, tail) := by
  have h64 : m.length < 256 ^ 8 := by simpa using h
  rw [nextFrame_none (by simp; omega), leDecode_take_frame h64, drop_frame, nextFrame_some (by simp)]
  simp

/-- The state at the end of a chunk: the header, once complete, has been taken off the buffer. -/
def parsed (s : AntiStickyStream) : AntiStickyStream :=
  if s.size.isNone && decide (8 ≤ s.rBuf.length) then s.storeSize else s

/-! ## The loop for the body

With the length known, the frame is complete when the buffer has as many bytes, and `next` takes
them off its front. -/

theorem readBody_chunks (size : Nat) (s : AntiStickyStream) (hs : s.size = some size)
    (chunks : List Bytes) :
    (∃ m buf used rest, chunks = used ++ rest ∧
        nextFrame s.size (s.rBuf ++ used.flatten) = some (m, buf) ∧
        (∀ j < used.length, nextFrame s.size (s.rBuf ++ (used.take j).flatten) = none) ∧
        readBody size s (chunks.map .ok)
          = .ready m { s with rBuf := buf, size := none } (rest.map .ok)) ∨
      (nextFrame s.size (s.rBuf ++ chunks.flatten) = none ∧
        readBody size s (chunks.map .ok)
          = .pending (.readBody size) { s with rBuf := s.rBuf ++ chunks.flatten }) := by
  rcases fill_chunks (.readBody size) size s chunks with
    ⟨used, rest, hc, hlen, hmin, heq⟩ | ⟨hlen, heq⟩
  · refine Or.inl ⟨(s.rBuf ++ used.flatten).take size, (s.rBuf ++ used.flatten).drop size, used,
      rest, hc, ?_, ?_, ?_⟩
    · rw [hs, nextFrame_some hlen]
    · intro j hj
      rw [hs, nextFrame_some_of_lt (hmin j hj)]
    · rw [readBody, heq]
      rfl
  · refine Or.inr ⟨?_, ?_⟩
    · rw [hs, nextFrame_some_of_lt hlen]
    · rw [readBody, heq]
      rfl

/-! ## The whole function

Three cases: the length is known from an earlier call, the chunks do not complete the header, or
some of them do and the others go to the body. In the second case `size` is still empty, in the
third it has been stored even when the call is suspended afterwards. -/

theorem take_eight_append {buf : Bytes} (h : 8 ≤ buf.length) (more : Bytes) :
    (buf ++ more).take 8 = buf.take 8 := List.take_append_of_le_length h

theorem drop_eight_append {buf : Bytes} (h : 8 ≤ buf.length) (more : Bytes) :
    (buf ++ more).drop 8 = buf.drop 8 ++ more := List.drop_append_of_le_length h

/-- Once the header is in the buffer, the frame is the body that its size announces. -/
theorem nextFrame_storeSize {s : AntiStickyStream} (h : 8 ≤ s.rBuf.length) (more : Bytes) :
    nextFrame none (s.rBuf ++ more) = nextFrame s.storeSize.size (s.storeSize.rBuf ++ more) := by
  rw [nextFrame_none (by simp; omega), take_eight_append h, drop_eight_append h]
  rfl

/-- What a call of `read_one` on these chunks has to return: the first message, after the least
number of chunks that hold it, or the suspended future. -/
def ReadsFirst (s : AntiStickyStream) (chunks : List Bytes) (out : Poll Bytes) : Prop :=
  (∃ m buf used rest, chunks = used ++ rest ∧
      nextFrame s.size (s.rBuf ++ used.flatten) = some (m, buf) ∧
      (∀ j < used.length, nextFrame s.size (s.rBuf ++ (used.take j).flatten) = none) ∧
      out = .ready m { s with rBuf := buf, size := none } (rest.map .ok)) ∨
    (nextFrame s.size (s.rBuf ++ chunks.flatten) = none ∧
      ∃ point, Waits point (parsed { s with rBuf := s.rBuf ++ chunks.flatten }) ∧
        out = .pending point (parsed { s with rBuf := s.rBuf ++ chunks.flatten }))

/-- With the size of the message already read, `read_one` is the loop for the body. -/
theorem readOne_sized {s : AntiStickyStream} {size : Nat} (hs : s.size = some size)
    (chunks : List Bytes) : ReadsFirst s chunks (readOne s (chunks.map .ok)) := by
  have hone : readOne s (chunks.map .ok) = readBody size s (chunks.map .ok) := by
    simp [readOne, readSized, hs]
  have hparsed : parsed { s with rBuf := s.rBuf ++ chunks.flatten }
      = { s with rBuf := s.rBuf ++ chunks.flatten } := by
    simp [parsed, hs]
  rw [hone]
  rcases readBody_chunks size s hs chunks with h | ⟨hnone, heq⟩
  · exact Or.inl h
  · refine Or.inr ⟨hnone, .readBody size, ?_, by rw [hparsed, heq]⟩
    rw [hs] at hnone
    rw [hparsed]
    exact ⟨hs, lt_of_nextFrame_some hnone⟩

/-- The chunks do not complete the header. -/
theorem readOne_short {s : AntiStickyStream} (hs : s.size = none) {chunks : List Bytes}
    (hlen : (s.rBuf ++ chunks.flatten).length < 8)
    (heq : fill .readSize 8 s (chunks.map .ok)
      = .pending .readSize { s with rBuf := s.rBuf ++ chunks.flatten }) :
    ReadsFirst s chunks (readOne s (chunks.map .ok)) := by
  have hone : readOne s (chunks.map .ok)
      = .pending .readSize { s with rBuf := s.rBuf ++ chunks.flatten } := by
    simp [readOne, readSize, hs, heq, Poll.bind]
  have hparsed : parsed { s with rBuf := s.rBuf ++ chunks.flatten }
      = { s with rBuf := s.rBuf ++ chunks.flatten } := by
    rw [parsed, if_neg (by simpa [hs] using hlen)]
  have hnone : nextFrame s.size (s.rBuf ++ chunks.flatten) = none := by
    rw [hs]
    exact nextFrame_none_of_lt hlen
  refine Or.inr ⟨hnone, .readSize, ?_, by rw [hparsed, hone]⟩
  rw [hparsed]
  exact ⟨hs, hlen⟩

/-- The header is complete after the chunks `used`; the body is looked for in the others. -/
theorem readOne_header {s : AntiStickyStream} (hs : s.size = none) {used rest : List Bytes}
    (hlen : 8 ≤ (s.rBuf ++ used.flatten).length)
    (hmin : ∀ j < used.length, (s.rBuf ++ (used.take j).flatten).length < 8)
    (heq : fill .readSize 8 s ((used ++ rest).map .ok)
      = .ready () { s with rBuf := s.rBuf ++ used.flatten } (rest.map .ok)) :
    ReadsFirst s (used ++ rest) (readOne s ((used ++ rest).map .ok)) := by
  set s₁ : AntiStickyStream := { s with rBuf := s.rBuf ++ used.flatten } with hs₁
  have hlen₁ : 8 ≤ s₁.rBuf.length := hlen
  have hone : readOne s ((used ++ rest).map .ok)
      = readBody (leDecode (s₁.rBuf.take 8)) s₁.storeSize (rest.map .ok) := by
    rw [readOne, if_pos (by simp [hs]), readSize, heq]
    rfl
  have hnext : ∀ more, nextFrame s.size (s.rBuf ++ used.flatten ++ more)
      = nextFrame s₁.storeSize.size (s₁.storeSize.rBuf ++ more) := by
    intro more
    rw [hs]
    exact nextFrame_storeSize (s := s₁) hlen more
  rw [hone]
  rcases readBody_chunks _ s₁.storeSize rfl rest with
    ⟨m, buf, used', rest', hc, hframe, hmin', hbody⟩ | ⟨hnone, hbody⟩
  · refine Or.inl ⟨m, buf, used ++ used', rest', by rw [hc, List.append_assoc], ?_, ?_, ?_⟩
    · rw [List.flatten_append, ← List.append_assoc, hnext]
      exact hframe
    · -- a shorter part of the chunks lacks the header, or the end of the body
      intro j hj
      by_cases hju : j < used.length
      · rw [List.take_append_of_le_length (Nat.le_of_lt hju), hs]
        exact nextFrame_none_of_lt (hmin j hju)
      · rw [List.take_append, List.take_of_length_le (Nat.not_lt.mp hju), List.flatten_append,
          ← List.append_assoc, hnext]
        exact hmin' _ (by rw [List.length_append] at hj; omega)
    · rw [hbody]
      rfl
  · have hall : s.rBuf ++ (used ++ rest).flatten = s₁.rBuf ++ rest.flatten := by
      rw [List.flatten_append, ← List.append_assoc]
    have hparsed : parsed { s with rBuf := s.rBuf ++ (used ++ rest).flatten }
        = { s₁.storeSize with rBuf := s₁.storeSize.rBuf ++ rest.flatten } := by
      have hlen' : 8 ≤ (s₁.rBuf ++ rest.flatten).length := by
        rw [List.length_append]
        exact Nat.le_trans hlen₁ (Nat.le_add_right _ _)
      rw [hall, parsed, if_pos (by simpa [hs] using hlen')]
      simp only [storeSize, take_eight_append hlen₁, drop_eight_append hlen₁]
      rfl
    refine Or.inr ⟨?_, .readBody (leDecode (s₁.rBuf.take 8)), ?_, by rw [hparsed, hbody]⟩
    · rw [hall, show s₁.rBuf = s.rBuf ++ used.flatten from rfl, hnext]
      exact hnone
    · rw [hparsed]
      exact ⟨rfl, lt_of_nextFrame_some hnone⟩

/-- **What `read_one` does on a socket without errors.** -/
theorem readOne_chunks (s : AntiStickyStream) (chunks : List Bytes) :
    ReadsFirst s chunks (readOne s (chunks.map .ok)) := by
  rcases Option.eq_none_or_eq_some s.size with hs | ⟨size, hs⟩
  · rcases fill_chunks .readSize 8 s chunks with ⟨used, rest, rfl, hlen, hmin, heq⟩ | ⟨hlen, heq⟩
    · exact readOne_header hs hlen hmin heq
    · exact readOne_short hs hlen heq
  · exact readOne_sized hs chunks

end Rslinker.AntiStickyStream
