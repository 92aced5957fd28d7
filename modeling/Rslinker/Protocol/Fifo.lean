import Rslinker.Basic.Queue
import Rslinker.Protocol.RawMode

set_option autoImplicit false

/-! # The framed transport is a queue of messages

One direction of a connection between two `AntiStickyStream`s: the sending stream, the bytes its
socket has taken and the other socket has not yet returned, and the receiving stream. Every
write takes any positive number of bytes, every read returns any positive number of them, and a
future of `write_one` or `read_one` may be dropped at every `await`.

`step_simulates` shows that the transport simulates the queue of `Basic/Queue.lean`: starting a
write pushes the message, a completed read pops one, and nothing else changes the queue.
-/

namespace Rslinker

open AntiStickyStream

structure Transport where
  tx : AntiStickyStream
  writing : Option WriteAwait
  wire : Bytes
  rx : AntiStickyStream
  reading : Option ReadAwait
  /-- The messages passed to `write_one` so far. -/
  sent : List Bytes
  /-- The messages returned by `read_one` so far. -/
  returned : List Bytes
  deriving DecidableEq, Repr

namespace Transport

inductive Act
  /-- `write_one(m)` is called and runs to its first `await`. -/
  | write (m : Bytes)
  /-- The socket takes `n` bytes of the pending `write_buf`. -/
  | accept (n : Nat)
  /-- The pending `flush` completes. -/
  | flush
  /-- The future of `write_one` is dropped. -/
  | dropWrite
  /-- `read_one()` is called and runs to its first `await`, or to its end. -/
  | read
  /-- The pending `read_buf` returns `n` bytes. -/
  | deliver (n : Nat)
  /-- The future of `read_one` is dropped. -/
  | dropRead
  deriving DecidableEq, Repr

def init : Transport := ⟨new, none, [], new, none, [], []⟩

/-- The state after the future of `read_one` has run as far as it can. -/
def settle (t : Transport) : Poll Bytes → Option Transport
  | .ready m s _ => some { t with rx := s, reading := none, returned := t.returned ++ [m] }
  | .failed s _ => some { t with rx := s, reading := none }
  | .pending point s => some { t with rx := s, reading := some point }
  | .panicked => none

/-- One step. A message is shorter than `2 ^ 64` bytes: the length of a slice is a `usize`. -/
def step (t : Transport) : Act → Option Transport
  | .write m =>
      if t.writing = none ∧ m.length < 2 ^ 64 then
        let tx := t.tx.putFrame m
        some { t with tx := tx, writing := some tx.writePoint, sent := t.sent ++ [m] }
      else none
  | .accept n =>
      if t.writing = some .writeBuf ∧ 0 < n ∧ n ≤ t.tx.wBuf.length then
        let (out, tx) := t.tx.writeBuf n
        some { t with tx := tx, wire := t.wire ++ out, writing := some tx.writePoint }
      else none
  | .flush => if t.writing = some .flush then some { t with writing := none } else none
  | .dropWrite => if t.writing = none then none else some { t with writing := none }
  | .read => if t.reading = none then t.settle (readOne t.rx []) else none
  | .deliver n =>
      match t.reading with
      | some point =>
          if 0 < n ∧ n ≤ t.wire.length then
            { t with wire := t.wire.drop n }.settle (resume point t.rx (.ok (t.wire.take n)) [])
          else none
      | none => none
  | .dropRead => if t.reading = none then none else some { t with reading := none }

/-- The messages passed to `write_one` in a run, in order. -/
def written (acts : List Act) : List Bytes :=
  acts.filterMap fun
    | .write m => some m
    | _ => none

/-! ## The messages a stream of bytes carries

The invariant is about bytes: those in the receiving buffer, on the wire and in the sending buffer,
in this order, are the frames of the messages that are on their way. Only the first frame may have
lost its header, when that has already been read into `size`. A drop of a future moves no byte, so
`Carries` needs to know nothing about futures. -/

/-- The bytes still to be read, after a header with `size` or none, are the frames of `ms`. -/
def Carries : Option Nat → Bytes → List Bytes → Prop
  | none, bytes, ms => bytes = frames 8 ms
  | some size, bytes, ms => ∃ m rest, ms = m :: rest ∧ size = m.length ∧ bytes = m ++ frames 8 rest

def Short (ms : List Bytes) : Prop := ∀ m ∈ ms, m.length < 2 ^ 64

section Carries

variable {size : Option Nat} {bytes more m tail : Bytes} {ms : List Bytes}

theorem Carries.push (h : Carries size bytes ms) (m : Bytes) :
    Carries size (bytes ++ frame 8 m) (ms ++ [m]) := by
  cases size with
  | none =>
      simp only [Carries] at h ⊢
      simp [h]
  | some size =>
      obtain ⟨m₀, rest, rfl, rfl, rfl⟩ := h
      exact ⟨m₀, rest ++ [m], rfl, rfl, by simp⟩

/-- A message that `read_one` can take off the buffer is the first one carried. -/
theorem Carries.pop (h : Carries size (bytes ++ more) ms) (hs : Short ms)
    (hnext : nextFrame size bytes = some (m, tail)) :
    ∃ rest, ms = m :: rest ∧ Carries none (tail ++ more) rest := by
  have hfull := nextFrame_append hnext more
  cases size with
  | none =>
      simp only [Carries] at h
      rw [h] at hfull
      cases ms with
      | nil => simp [nextFrame] at hfull
      | cons m₀ rest =>
          rw [frames_cons, nextFrame_frame (hs m₀ (by simp))] at hfull
          obtain ⟨rfl, htail⟩ := Prod.mk.inj (Option.some.inj hfull)
          exact ⟨rest, rfl, htail.symm⟩
  | some size =>
      -- the header has been read: the body is the rest of the first frame
      obtain ⟨m₀, rest, rfl, rfl, hb⟩ := h
      rw [hb, nextFrame_some (by simp)] at hfull
      obtain ⟨rfl, htail⟩ := Prod.mk.inj (Option.some.inj hfull)
      exact ⟨rest, by simp, by simpa [Carries] using htail.symm⟩

/-- Taking the header off the buffer leaves the carried messages. -/
theorem Carries.parsed {s : AntiStickyStream} (h : Carries s.size (s.rBuf ++ more) ms)
    (hs : Short ms) : Carries s.parsed.size (s.parsed.rBuf ++ more) ms := by
  unfold AntiStickyStream.parsed
  split
  · rename_i hc
    obtain ⟨hnone, hlen⟩ : s.size = none ∧ 8 ≤ s.rBuf.length := by simpa using hc
    rw [hnone] at h
    simp only [Carries] at h
    cases ms with
    | nil =>
        rw [frames_nil, List.append_eq_nil_iff] at h
        simp [h.1] at hlen
    | cons m rest =>
        rw [frames_cons] at h
        have hm : m.length < 256 ^ 8 := by simpa using hs m (by simp)
        refine ⟨m, rest, rfl, ?_, ?_⟩
        · rw [← take_eight_append hlen more, h, leDecode_take_frame hm]
        · show s.rBuf.drop 8 ++ more = _
          rw [← drop_eight_append hlen, h, drop_frame]
  · exact h

/-- While a message is carried and all bytes are in the buffer, `read_one` can take it. -/
theorem Carries.next (h : Carries size bytes ms) (hs : Short ms) (hne : ms ≠ []) :
    ∃ m tail, nextFrame size bytes = some (m, tail) := by
  cases size with
  | none =>
      simp only [Carries] at h
      cases ms with
      | nil => exact absurd rfl hne
      | cons m rest => exact ⟨m, _, by rw [h, frames_cons, nextFrame_frame (hs m (by simp))]⟩
  | some size =>
      obtain ⟨m, rest, -, rfl, rfl⟩ := h
      exact ⟨_, _, nextFrame_some (by simp)⟩

end Carries

/-! ## `read_one` up to its first `await`

In the transport a call of `read_one` is started without a result of `read_buf`, so it returns at
once or waits. In the first case the frame was in the buffer, in the second there is no complete
one. -/

theorem readOne_nil (s : AntiStickyStream) :
    (∃ m buf, nextFrame s.size s.rBuf = some (m, buf) ∧
        readOne s [] = .ready m { s with rBuf := buf, size := none } []) ∨
      (nextFrame s.size s.rBuf = none ∧
        ∃ point, Waits point s.parsed ∧ readOne s [] = .pending point s.parsed) := by
  rcases readOne_chunks s [] with ⟨m, buf, used, rest, hc, hnext, -, heq⟩ | ⟨hnone, point, hw, heq⟩
  · obtain ⟨rfl, rfl⟩ := List.append_eq_nil_iff.mp hc.symm
    exact Or.inl ⟨m, buf, by simpa using hnext, by simpa using heq⟩
  · have hs : { s with rBuf := s.rBuf ++ ([] : List Bytes).flatten } = s := by simp
    rw [hs] at hw heq
    exact Or.inr ⟨by simpa using hnone, point, hw, heq⟩

theorem nextFrame_of_waits {point : ReadAwait} {s : AntiStickyStream} (h : Waits point s) :
    nextFrame s.size s.rBuf = none := by
  cases point with
  | readSize =>
      rw [h.1]
      exact nextFrame_none_of_lt h.2
  | readBody size =>
      rw [h.1]
      exact nextFrame_some_of_lt h.2

/-! ## The simulation

A step of the queue is a push or a pop. A write that starts is the push, although not one byte has
left the sender by then: it is in `w_buf` from that moment on, whatever happens to the future. A
read that completes is the pop. All other steps move bytes along. -/

/-- The transport `t` stands for the queue `q`: what is on its way, from the receiving buffer back
to the sending one, are the frames of the queued messages. -/
structure Simulates (t : Transport) (q : Queue Bytes) : Prop where
  sent : q.pushed = t.sent
  returned : q.popped = t.returned
  carries : Carries t.rx.size (t.rx.rBuf ++ (t.wire ++ t.tx.wBuf)) q.content
  short : Short q.content
  waits : ∀ point, t.reading = some point → Waits point t.rx

theorem simulates_init : Simulates init Queue.empty where
  sent := rfl
  returned := rfl
  carries := rfl
  short := by simp [Short, Queue.empty]
  waits := by simp [init]

/-- Letting `read_one` run pops the first message when the buffer has all of it. -/
theorem simulates_settle {t t' : Transport} {q : Queue Bytes} {s : AntiStickyStream}
    (hsent : q.pushed = t.sent) (hret : q.popped = t.returned) (hshort : Short q.content)
    (hc : Carries s.size (s.rBuf ++ (t.wire ++ t.tx.wBuf)) q.content)
    (h : t.settle (readOne s []) = some t') :
    ∃ q', Reaches Queue.step q q' ∧ Simulates t' q' := by
  rcases readOne_nil s with ⟨m, buf, hnext, heq⟩ | ⟨-, point, hw, heq⟩
  · -- the call returns, and the queue pops the same message
    obtain ⟨rest, hq, hrest⟩ := hc.pop hshort hnext
    rw [heq] at h
    cases h
    refine ⟨{ q with popped := q.popped ++ [m], content := rest }, .of_step (a := .pop) ?_, ?_⟩
    · simp [Queue.step, hq]
    · exact ⟨hsent, by simp [hret], hrest, fun m' hm' => hshort m' (by simp [hq, hm']), by simp⟩
  · -- the call is suspended, perhaps with the header taken off the buffer
    rw [heq] at h
    cases h
    refine ⟨q, .refl q, hsent, hret, hc.parsed hshort, hshort, ?_⟩
    rintro point' hp
    cases hp
    exact hw

/-- **Every step of the transport is a step of the queue, or leaves the queue as it is.** -/
theorem step_simulates {t t' : Transport} {q : Queue Bytes} {a : Act} (hsim : Simulates t q)
    (h : t.step a = some t') : ∃ q', Reaches Queue.step q q' ∧ Simulates t' q' := by
  obtain ⟨hsent, hret, hc, hshort, hw⟩ := hsim
  cases a with
  | write m =>
      obtain ⟨⟨-, hm⟩, h⟩ := Option.ite_none_right_eq_some.mp h
      cases h
      refine ⟨{ q with pushed := q.pushed ++ [m], content := q.content ++ [m] },
        .of_step (a := .push m) rfl, by simp [hsent], hret, ?_, ?_, hw⟩
      · have := hc.push m
        simpa [putFrame_eq] using this
      · intro m' hm'
        rcases List.mem_append.mp hm' with hm' | hm'
        · exact hshort m' hm'
        · rwa [List.mem_singleton.mp hm']
  | accept n =>
      obtain ⟨-, h⟩ := Option.ite_none_right_eq_some.mp h
      cases h
      -- the bytes go from the sending buffer to the wire
      have hmove : t.wire ++ t.tx.wBuf = t.wire ++ t.tx.wBuf.take n ++ t.tx.wBuf.drop n := by
        rw [List.append_assoc, List.take_append_drop]
      rw [hmove] at hc
      exact ⟨q, .refl q, hsent, hret, hc, hshort, hw⟩
  | flush =>
      obtain ⟨-, h⟩ := Option.ite_none_right_eq_some.mp h
      cases h
      exact ⟨q, .refl q, hsent, hret, hc, hshort, hw⟩
  | dropWrite =>
      obtain ⟨-, h⟩ := Option.ite_none_left_eq_some.mp h
      cases h
      -- what is left of the frame stays in the sending buffer
      exact ⟨q, .refl q, hsent, hret, hc, hshort, hw⟩
  | read =>
      obtain ⟨-, h⟩ := Option.ite_none_right_eq_some.mp h
      exact simulates_settle hsent hret hshort hc h
  | deliver n =>
      rcases hr : t.reading with _ | point
      · simp [step, hr] at h
      · simp only [step, hr] at h
        obtain ⟨-, h⟩ := Option.ite_none_right_eq_some.mp h
        rw [resume_eq_readOne (hw point hr)] at h
        -- the delivered bytes go from the wire to the buffer, and the call goes on from there
        have hc' : Carries t.rx.size ((t.rx.rBuf ++ t.wire.take n) ++ (t.wire.drop n ++ t.tx.wBuf))
            q.content := by
          rw [List.append_assoc, ← List.append_assoc (t.wire.take n), List.take_append_drop]
          exact hc
        exact simulates_settle (t := { t with wire := t.wire.drop n, reading := some point })
          hsent hret hshort hc' h
  | dropRead =>
      obtain ⟨-, h⟩ := Option.ite_none_left_eq_some.mp h
      cases h
      exact ⟨q, .refl q, hsent, hret, hc, hshort, by simp⟩

/-- Every reachable transport stands for a reachable queue. -/
theorem reaches_simulates {t : Transport} (h : Reaches step init t) :
    ∃ q, Reaches Queue.step Queue.empty q ∧ Simulates t q :=
  run_simulates (fun _ _ _ _ hR hs => step_simulates hR hs) simulates_init h

/-! ## Nothing blocks

A guard of `step` says what a future does at a moment, not that the connection gets stuck: when no
`read_one` is pending it can be called, and when one is pending it takes whatever is on the wire.
So once a sender has nothing left in its buffer, reads and deliveries alone bring everything to the
receiver (`drains`, below). -/

theorem settle_isSome (t : Transport) (s : AntiStickyStream) :
    ∃ t', t.settle (readOne s []) = some t' := by
  rcases readOne_nil s with ⟨m, buf, -, heq⟩ | ⟨-, point, -, heq⟩
  · exact ⟨_, by rw [heq]; rfl⟩
  · exact ⟨_, by rw [heq]; rfl⟩

theorem read_enabled {t : Transport} (hr : t.reading = none) : ∃ t', t.step .read = some t' := by
  rw [step, if_pos hr]
  exact settle_isSome t t.rx

theorem deliver_enabled {t : Transport} (h : Reaches step init t) {point : ReadAwait} {n : Nat}
    (hr : t.reading = some point) (hn : 0 < n) (hwire : n ≤ t.wire.length) :
    ∃ t', t.step (.deliver n) = some t' := by
  obtain ⟨q, -, hsim⟩ := reaches_simulates h
  simp only [step, hr, if_pos (And.intro hn hwire), resume_eq_readOne (hsim.waits point hr)]
  exact settle_isSome _ _

/-! ## The history of a run

What has been sent is a field of the state, for the simulation, and a function of the actions
(`written`), which is what a run can be asked about. They are the same. -/

theorem settle_sent {t t' : Transport} {p : Poll Bytes} (h : t.settle p = some t') :
    t'.sent = t.sent := by
  cases p with
  | ready m s rest => cases h; rfl
  | failed s rest => cases h; rfl
  | pending point s => cases h; rfl
  | panicked => cases h

theorem step_sent {t t' : Transport} {a : Act} (h : t.step a = some t') :
    t'.sent = t.sent ++ written [a] := by
  cases a with
  | write m =>
      obtain ⟨-, h⟩ := Option.ite_none_right_eq_some.mp h
      cases h
      rfl
  | accept n =>
      obtain ⟨-, h⟩ := Option.ite_none_right_eq_some.mp h
      cases h
      simp [written]
  | flush =>
      obtain ⟨-, h⟩ := Option.ite_none_right_eq_some.mp h
      cases h
      simp [written]
  | dropWrite =>
      obtain ⟨-, h⟩ := Option.ite_none_left_eq_some.mp h
      cases h
      simp [written]
  | read =>
      obtain ⟨-, h⟩ := Option.ite_none_right_eq_some.mp h
      simp [written, settle_sent h]
  | deliver n =>
      rcases hr : t.reading with _ | point
      · simp [step, hr] at h
      · simp only [step, hr] at h
        obtain ⟨-, h⟩ := Option.ite_none_right_eq_some.mp h
        simp [written, settle_sent h]
  | dropRead =>
      obtain ⟨-, h⟩ := Option.ite_none_left_eq_some.mp h
      cases h
      simp [written]

theorem run_sent {t : Transport} {acts : List Act} (h : run step init acts = some t) :
    t.sent = written acts := by
  have hinit : init.sent = written [] := rfl
  refine run_invariant_history (P := fun t done => t.sent = written done) ?_ hinit h
  intro u done a u' hu ha
  rw [step_sent ha, hu, written, written, ← List.filterMap_append]
  rfl

/-! ## Everything flushed and delivered -/

/-- With all bytes in the receiving buffer, calls of `read_one` return the carried messages. -/
theorem run_reads {t : Transport} {ms : List Bytes} (hr : t.reading = none)
    (hc : Carries t.rx.size t.rx.rBuf ms) (hs : Short ms) :
    ∃ t', run step t (List.replicate ms.length .read) = some t' ∧
      t'.returned = t.returned ++ ms := by
  induction ms generalizing t with
  | nil => exact ⟨t, rfl, by simp⟩
  | cons m rest ih =>
      rcases readOne_nil t.rx with ⟨m', buf, hnext, heq⟩ | ⟨hnone, -⟩
      · have hc' : Carries t.rx.size (t.rx.rBuf ++ []) (m :: rest) := by simpa using hc
        obtain ⟨rest', hms, hrest⟩ := hc'.pop hs hnext
        obtain ⟨rfl, rfl⟩ := List.cons.inj hms
        set u : Transport := { t with rx := { t.rx with rBuf := buf, size := none }, reading := none,
                                      returned := t.returned ++ [m] } with hu
        have hstep : t.step .read = some u := by
          simp only [step, hr, if_true, heq, settle]
          rw [hu]
        obtain ⟨t', hrun, hret⟩ := ih (t := u) rfl (by simpa using hrest)
          (fun m' hm' => hs m' (by simp [hm']))
        exact ⟨t', run_cons.mpr ⟨u, hstep, hrun⟩, by simp [hret, hu]⟩
      · obtain ⟨m', tail, hnext⟩ := hc.next hs (by simp)
        rw [hnone] at hnext
        cases hnext

/-- A suspended reader has no complete frame before it. -/
theorem Simulates.content_nil {t : Transport} {q : Queue Bytes} (hsim : Simulates t q)
    (hw : t.tx.wBuf = []) (hwire : t.wire = []) (hr : t.reading ≠ none) : q.content = [] := by
  obtain ⟨point, hp⟩ := Option.ne_none_iff_exists'.mp hr
  have hc : Carries t.rx.size t.rx.rBuf q.content := by simpa [hw, hwire] using hsim.carries
  by_contra hne
  obtain ⟨m, tail, hnext⟩ := hc.next hsim.short hne
  rw [nextFrame_of_waits (hsim.waits point hp)] at hnext
  cases hnext

theorem reaches_sent {t : Transport} {q : Queue Bytes} (hq : Reaches Queue.step Queue.empty q)
    (hsim : Simulates t q) : t.sent = t.returned ++ q.content := by
  rw [← hsim.sent, ← hsim.returned]
  exact Queue.reaches_pushed hq

/-- The rest is returned once all bytes are in the receiving buffer. -/
theorem reads_rest {t : Transport} (h : Reaches step init t) (hw : t.tx.wBuf = [])
    (hwire : t.wire = []) :
    (t.reading ≠ none → t.returned = t.sent) ∧
      (t.reading = none → ∃ t',
        run step t (List.replicate (t.sent.length - t.returned.length) .read) = some t' ∧
          t'.returned = t.sent) := by
  obtain ⟨q, hq, hsim⟩ := reaches_simulates h
  have hsent := reaches_sent hq hsim
  constructor
  · intro hr
    rw [hsent, hsim.content_nil hw hwire hr, List.append_nil]
  · intro hr
    have hc : Carries t.rx.size t.rx.rBuf q.content := by simpa [hw, hwire] using hsim.carries
    obtain ⟨t', hrun, hret⟩ := run_reads hr hc hsim.short
    have hcount : t.sent.length - t.returned.length = q.content.length := by
      rw [hsent, List.length_append]
      omega
    exact ⟨t', by rw [hcount, hrun], by rw [hret, hsent]⟩

/-- The steps of the receiving side. -/
def Act.Receives : Act → Prop
  | .read | .deliver _ => True
  | _ => False

theorem settle_tx {t t' : Transport} {p : Poll Bytes} (h : t.settle p = some t') :
    t'.tx = t.tx ∧ t'.wire = t.wire := by
  cases p with
  | ready m s rest => cases h; exact ⟨rfl, rfl⟩
  | failed s rest => cases h; exact ⟨rfl, rfl⟩
  | pending point s => cases h; exact ⟨rfl, rfl⟩
  | panicked => cases h

/-- A reader that waits is given everything on the wire at once, and reads on from there. -/
theorem drains_waiting {t : Transport} (h : Reaches step init t) (hw : t.tx.wBuf = [])
    (hr : t.reading ≠ none) : ∃ acts t', (∀ a ∈ acts, a.Receives) ∧
      run step t acts = some t' ∧ t'.returned = t.sent := by
  by_cases hwire : t.wire = []
  · exact ⟨[], t, by simp, rfl, (reads_rest h hw hwire).1 hr⟩
  · obtain ⟨point, hp⟩ := Option.ne_none_iff_exists'.mp hr
    obtain ⟨t₁, hstep⟩ := deliver_enabled h hp (List.length_pos_of_ne_nil hwire) (Nat.le_refl _)
    have hsent : t₁.sent = t.sent := by simpa [written] using step_sent hstep
    have h₁ : Reaches step init t₁ := h.trans (.of_step hstep)
    obtain ⟨htx, hnil⟩ : t₁.tx = t.tx ∧ t₁.wire = [] := by
      simp only [step, hp] at hstep
      obtain ⟨-, hstep⟩ := Option.ite_none_right_eq_some.mp hstep
      obtain ⟨htx, hrest⟩ := settle_tx hstep
      exact ⟨htx, by rw [hrest, List.drop_length]⟩
    rw [← htx] at hw
    obtain ⟨hwaiting, hidle⟩ := reads_rest h₁ hw hnil
    by_cases hr₁ : t₁.reading = none
    · obtain ⟨t', hrun, hret⟩ := hidle hr₁
      refine ⟨_, t', ?_, run_cons.mpr ⟨t₁, hstep, hrun⟩, by rw [hret, hsent]⟩
      rintro a (_ | ⟨_, ha⟩)
      · trivial
      · rw [List.eq_of_mem_replicate ha]
        trivial
    · refine ⟨[_], t₁, ?_, run_cons.mpr ⟨t₁, hstep, rfl⟩, by rw [hwaiting hr₁, hsent]⟩
      rintro a (_ | ⟨_, ⟨⟩⟩)
      trivial

/-- **What has been flushed is received.** From every state of a run in which the sending buffer is
empty, reads and deliveries alone return every message written, whatever has been dropped before. -/
theorem drains {t : Transport} (h : Reaches step init t) (hw : t.tx.wBuf = []) :
    ∃ acts t', (∀ a ∈ acts, a.Receives) ∧ run step t acts = some t' ∧ t'.returned = t.sent := by
  -- on the number of messages that have not been returned
  induction hn : t.sent.length - t.returned.length using Nat.strong_induction_on generalizing t with
  | h n ih =>
      by_cases hr : t.reading = none
      · obtain ⟨t₁, hstep⟩ := read_enabled hr
        have hsent : t₁.sent = t.sent := by simpa [written] using step_sent hstep
        have h₁ : Reaches step init t₁ := h.trans (.of_step hstep)
        have hrest : ∃ acts t', (∀ a ∈ acts, a.Receives) ∧
            run step t₁ acts = some t' ∧ t'.returned = t₁.sent := by
          obtain ⟨q, hq, hsim⟩ := reaches_simulates h₁
          have hlength := congrArg List.length (reaches_sent hq hsim)
          have hread := hstep
          rw [step, if_pos hr] at hread
          rcases readOne_nil t.rx with ⟨m, buf, -, heq⟩ | ⟨-, point, -, heq⟩
          · -- the call returns a message, and one less is missing
            rw [heq] at hread
            cases hread
            simp only [List.length_append, List.length_cons, List.length_nil] at hlength
            exact ih _ (by simp only [List.length_append, List.length_cons, List.length_nil]; omega)
              h₁ hw rfl
          · rw [heq] at hread
            cases hread
            exact drains_waiting h₁ hw (by simp)
        obtain ⟨acts, t', hacts, hrun, hret⟩ := hrest
        refine ⟨.read :: acts, t', ?_, run_cons.mpr ⟨t₁, hstep, hrun⟩, by rw [hret, hsent]⟩
        rintro a (_ | ⟨_, ha⟩)
        · trivial
        · exact hacts a ha
      · exact drains_waiting h hw hr

/-- **The framed transport is an exact queue.** In every state of every run, with any splitting of
writes and reads and any dropped futures, the returned messages are a prefix of the written ones.
Once all bytes have been flushed and delivered, a reader that waits has returned all of them, and
one that does not returns the missing ones by that many calls. -/
theorem returned_prefix_written {acts : List Act} {t : Transport}
    (h : run step init acts = some t) :
    t.returned <+: written acts ∧
      (t.tx.wBuf = [] → t.wire = [] →
        (t.reading ≠ none → t.returned = written acts) ∧
        (t.reading = none → ∃ t',
          run step t (List.replicate ((written acts).length - t.returned.length) .read) = some t' ∧
            t'.returned = written acts)) := by
  have hreach : Reaches step init t := ⟨acts, h⟩
  obtain ⟨q, hq, hsim⟩ := reaches_simulates hreach
  rw [← run_sent h]
  exact ⟨⟨q.content, (reaches_sent hq hsim).symm⟩, fun hw hwire => reads_rest hreach hw hwire⟩

/-- The rule at a run in which the first write is abandoned with its frame half sent, and the first
read is dropped between the header and the body. -/
theorem returned_prefix_written_abandoned :
    [[7], [8, 9]] <+: written [.write [7], .accept 3, .dropWrite, .write [8, 9], .accept 16,
      .flush, .read, .deliver 8, .dropRead, .read, .deliver 11, .read] := by
  have h : ∃ t, run step init [.write [7], .accept 3, .dropWrite, .write [8, 9], .accept 16,
      .flush, .read, .deliver 8, .dropRead, .read, .deliver 11, .read] = some t ∧
      t.returned = [[7], [8, 9]] := ⟨_, rfl, by decide⟩
  obtain ⟨t, hrun, hret⟩ := h
  rw [← hret]
  exact (returned_prefix_written hrun).1

end Transport

end Rslinker
