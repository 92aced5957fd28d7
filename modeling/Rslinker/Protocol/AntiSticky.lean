import Rslinker.Basic.Framing

set_option autoImplicit false

/-! # `AntiStickyStream`: messages over a byte stream

The framed transport of `protocol/mod.rs`. A message is sent as its length in eight
little-endian bytes followed by its bytes, and the reader collects bytes in `rBuf` until a whole
message is there.

The socket is the environment of these functions. A reading function takes the list of what the
next `read_buf` calls return and runs until it returns or needs a `read_buf` whose result is not
there yet; in that case its future is suspended at that `await`. Dropping the future leaves the
stream as it is at that point, and `resume` continues it with one more result.
-/

namespace Rslinker

/-- What one `read_buf` call returns: `Ok` with the bytes it has put into the buffer (no bytes at
the end of the stream, `Ok(0)`), or an error. -/
inductive ReadBuf
  | ok (chunk : Bytes)
  | err
  deriving DecidableEq, Repr

/-- The state of a stream, without the socket it wraps. -/
structure AntiStickyStream where
  wBuf : Bytes
  rBuf : Bytes
  size : Option Nat
  deriving DecidableEq, Repr

/-- The `await` at which the future of `read_one` is suspended: the `read_buf` of `read_size`, or
its own one, where its local variable `size` is alive. -/
inductive ReadAwait
  | readSize
  | readBody (size : Nat)
  deriving DecidableEq, Repr

/-- The state of an asynchronous computation over the stream. `rest` is what it has left of the
`read_buf` results. -/
inductive Poll (α : Type)
  | ready (a : α) (s : AntiStickyStream) (rest : List ReadBuf)
  | failed (s : AntiStickyStream) (rest : List ReadBuf)
  | pending (point : ReadAwait) (s : AntiStickyStream)
  | panicked
  deriving DecidableEq, Repr

def Poll.bind {α β : Type} : Poll α → (α → AntiStickyStream → List ReadBuf → Poll β) → Poll β
  | .ready a s rest, k => k a s rest
  | .failed s rest, _ => .failed s rest
  | .pending point s, _ => .pending point s
  | .panicked, _ => .panicked

namespace AntiStickyStream

def new : AntiStickyStream := ⟨[], [], none⟩

/-! ## Reading

`read_one` first reads the header with `read_size`, unless `self.size` has it from an earlier call,
and then collects the body. There are two loops and an `await` in each; everything that a suspended
call knows is in the stream, but for the local variable `size` of the second loop, which is a copy
of `self.size`. Both loops go on whatever `read_buf` returns, `Ok(0)` included. -/

/-- The loop `while self.r_buf.len() < size { self.socket.read_buf(&mut self.r_buf).await?; }`. -/
def fill (point : ReadAwait) (size : Nat) : AntiStickyStream → List ReadBuf → Poll Unit
  | s, [] => if s.rBuf.length < size then .pending point s else .ready () s []
  | s, .ok chunk :: rest =>
      if s.rBuf.length < size then fill point size { s with rBuf := s.rBuf ++ chunk } rest
      else .ready () s (.ok chunk :: rest)
  | s, .err :: rest =>
      if s.rBuf.length < size then .failed s rest else .ready () s (.err :: rest)

/-- `read_size` after its loop: the first eight bytes of `r_buf` are the size. A `usize` has 64
bits here, so the cast keeps the number. -/
def storeSize (s : AntiStickyStream) : AntiStickyStream :=
  { s with rBuf := s.rBuf.drop 8, size := some (leDecode (s.rBuf.take 8)) }

def readSize (s : AntiStickyStream) (rs : List ReadBuf) : Poll Unit :=
  (fill .readSize 8 s rs).bind fun _ s rest => .ready () s.storeSize rest

def readBody (size : Nat) (s : AntiStickyStream) (rs : List ReadBuf) : Poll Bytes :=
  (fill (.readBody size) size s rs).bind fun _ s rest =>
    .ready (s.rBuf.take size) { s with rBuf := s.rBuf.drop size, size := none } rest

/-- `read_one` after the call of `read_size`: `self.size.unwrap()` and the loop for the body. -/
def readSized (s : AntiStickyStream) (rs : List ReadBuf) : Poll Bytes :=
  match s.size with
  | some size => readBody size s rs
  | none => .panicked

def readOne (s : AntiStickyStream) (rs : List ReadBuf) : Poll Bytes :=
  if s.size.isNone then (readSize s rs).bind fun _ s rest => s.readSized rest
  else s.readSized rs

/-- A suspended future whose `read_buf` has returned goes on in the loop it was in. -/
def resume (point : ReadAwait) (s : AntiStickyStream) (r : ReadBuf) (rs : List ReadBuf) :
    Poll Bytes :=
  match r with
  | .err => .failed s rs
  | .ok chunk =>
      match point with
      | .readSize =>
          (readSize { s with rBuf := s.rBuf ++ chunk } rs).bind fun _ s rest => s.readSized rest
      | .readBody size => readBody size { s with rBuf := s.rBuf ++ chunk } rs

/-! ## Writing

`write_one` appends a frame to `w_buf` and then writes the buffer out. When its future is dropped
in between, the rest of the frame stays in `w_buf` and goes out in front of the next message. -/

/-- The `await` at which the future of `write_one` is suspended. -/
inductive WriteAwait
  | writeBuf
  | flush
  deriving DecidableEq, Repr

/-- `write_one` up to its loop: the header and the message are put into `w_buf`. -/
def putFrame (s : AntiStickyStream) (data : Bytes) : AntiStickyStream :=
  { s with wBuf := s.wBuf ++ leEncode 8 data.length ++ data }

/-- Where the loop `while self.w_buf.len() > 0 { write_buf.await? }` and the `flush` after it wait
next. -/
def writePoint (s : AntiStickyStream) : WriteAwait :=
  if 0 < s.wBuf.length then .writeBuf else .flush

/-- A `write_buf` that the socket answers by taking `n` bytes. -/
def writeBuf (s : AntiStickyStream) (n : Nat) : Bytes × AntiStickyStream :=
  (s.wBuf.take n, { s with wBuf := s.wBuf.drop n })

/-! ## Raw access

The stream also implements `AsyncRead` and `AsyncWrite`, which the relays use once the messages are
over. These go to the socket and never look at `r_buf`. -/

/-- `poll_read` of the implementation that `impl_async_stream!` generates: the inner socket is
polled, with `socket` the bytes it has still to deliver and `n` the room in the caller's buffer. -/
def pollRead (s : AntiStickyStream) (socket : Bytes) (n : Nat) : Bytes × AntiStickyStream × Bytes :=
  (socket.take n, s, socket.drop n)

/-- What a relay such as `copy_bidirectional` obtains by successive reads with room `ns`. -/
def rawRead (s : AntiStickyStream) (socket : Bytes) : List Nat → Bytes
  | [] => []
  | n :: ns =>
      let (got, s', socket') := s.pollRead socket n
      got ++ s'.rawRead socket' ns

theorem putFrame_eq (s : AntiStickyStream) (data : Bytes) :
    s.putFrame data = { s with wBuf := s.wBuf ++ frame 8 data } := by
  simp [putFrame, frame]

@[simp] theorem rawRead_eq (s : AntiStickyStream) (socket : Bytes) (ns : List Nat) :
    s.rawRead socket ns = socket.take ns.sum := by
  induction ns generalizing socket with
  | nil => simp [rawRead]
  | cons n ns ih => simp [rawRead, pollRead, ih, List.take_add]

/-! ## The loops

`fill` is the loop of both reading functions. Without errors it is a function of the chunks that
the socket returns: how it was suspended and resumed in between does not show. -/

section Fill

variable {point : ReadAwait} {size : Nat} {s : AntiStickyStream}

theorem fill_full (h : size ≤ s.rBuf.length) (rs : List ReadBuf) :
    fill point size s rs = .ready () s rs := by
  have hnot : ¬ s.rBuf.length < size := Nat.not_lt.mpr h
  cases rs with
  | nil => simp [fill, hnot]
  | cons r rs => cases r <;> simp [fill, hnot]

/-- **What the loop does on a socket without errors.** It takes the least number of chunks that
fill the buffer, or all of them when they do not. -/
theorem fill_chunks (point : ReadAwait) (size : Nat) (s : AntiStickyStream) (chunks : List Bytes) :
    (∃ used rest, chunks = used ++ rest ∧ size ≤ (s.rBuf ++ used.flatten).length ∧
        (∀ j < used.length, (s.rBuf ++ (used.take j).flatten).length < size) ∧
        fill point size s (chunks.map .ok)
          = .ready () { s with rBuf := s.rBuf ++ used.flatten } (rest.map .ok)) ∨
      ((s.rBuf ++ chunks.flatten).length < size ∧
        fill point size s (chunks.map .ok)
          = .pending point { s with rBuf := s.rBuf ++ chunks.flatten }) := by
  -- on the chunks; the state that the loop goes on with is that of its next pass
  induction chunks generalizing s with
  | nil =>
      by_cases h : s.rBuf.length < size
      · exact Or.inr (by simp [fill, h])
      · exact Or.inl ⟨[], [], by simp [fill, h, Nat.not_lt.mp h]⟩
  | cons chunk chunks ih =>
      by_cases h : s.rBuf.length < size
      · have hfill : fill point size s ((chunk :: chunks).map .ok)
            = fill point size { s with rBuf := s.rBuf ++ chunk } (chunks.map .ok) := by
          simp [fill, h]
        rw [hfill]
        rcases ih { s with rBuf := s.rBuf ++ chunk } with ⟨used, rest, hc, hlen, hmin, heq⟩ | ⟨hlen, heq⟩
        · refine Or.inl ⟨chunk :: used, rest, by simp [hc], by simpa using hlen, ?_, by simpa using heq⟩
          intro j hj
          cases j with
          | zero => simpa using h
          | succ j => simpa using hmin j (by simpa using hj)
        · exact Or.inr ⟨by simpa using hlen, by simpa using heq⟩
      · exact Or.inl ⟨[], chunk :: chunks, by simp, by simpa using h, by simp,
          by simpa using fill_full (Nat.not_lt.mp h) _⟩

end Fill

/-! ## A future can be dropped and called again

The loops of the program call `read` in a `select!`, and so drop its future whenever another arm is
ready first. That this loses nothing is what makes these loops right: a call that is suspended has
left the stream such that a new call would wait for the same bytes. -/

/-- The stream of a suspended `read_one`: what it waits for is not in the buffer. -/
def Waits : ReadAwait → AntiStickyStream → Prop
  | .readSize, s => s.size = none ∧ s.rBuf.length < 8
  | .readBody size, s => s.size = some size ∧ s.rBuf.length < size

/-- **Cancel safety.** A future that is suspended at an `await` does, on every next result of its
`read_buf`, what a new call of `read_one` would do with the bytes put into the buffer. -/
theorem resume_eq_readOne {point : ReadAwait} {s : AntiStickyStream} (h : Waits point s)
    (chunk : Bytes) (rs : List ReadBuf) :
    resume point s (.ok chunk) rs = readOne { s with rBuf := s.rBuf ++ chunk } rs := by
  cases point with
  | readSize => simp [resume, readOne, h.1]
  | readBody size => simp [resume, readOne, readSized, h.1]

end AntiStickyStream

end Rslinker
