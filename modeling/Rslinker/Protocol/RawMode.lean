import Rslinker.Protocol.ReadOne

set_option autoImplicit false

/-! # From framed mode to raw mode

`Server::on_new_connection` reads one message of a new connection with `SimpleRead::read` and hands
the socket to `make_tcp_channel` or `make_udp_channel`, which relay it through its `AsyncRead`
implementation. That implementation reads the inner socket, while the bytes `read` has collected
beyond the message stay in `rBuf`. So the relay gets what the peer sent after the message exactly
when the chunk that completed the message ended with it.

How a stream is cut into chunks is not up to the sender: two writes may arrive in one segment. What
the client sends after `AcceptChannel` is what the local service says, and a service that speaks first
says it at once.
-/

namespace Rslinker.AntiStickyStream

/-- More bytes behind a complete message leave it as it is. -/
theorem nextFrame_append {size : Option Nat} {bytes m tail : Bytes}
    (h : nextFrame size bytes = some (m, tail)) (more : Bytes) :
    nextFrame size (bytes ++ more) = some (m, tail ++ more) := by
  have hsome : ∀ {size : Nat} {bytes : Bytes}, nextFrame (some size) bytes = some (m, tail) →
      nextFrame (some size) (bytes ++ more) = some (m, tail ++ more) := by
    intro size bytes h
    have hle : size ≤ bytes.length := by
      by_contra hlt
      rw [nextFrame_some_of_lt (Nat.not_le.mp hlt)] at h
      cases h
    rw [nextFrame_some hle] at h
    cases h
    rw [nextFrame_some (by rw [List.length_append]; omega),
      List.take_append_of_le_length hle, List.drop_append_of_le_length hle]
  cases size with
  | some size => exact hsome h
  | none =>
      have hle : 8 ≤ bytes.length := by
        by_contra hlt
        rw [nextFrame_none_of_lt (Nat.not_le.mp hlt)] at h
        cases h
      rw [nextFrame_none hle] at h
      rw [nextFrame_none (by rw [List.length_append]; omega), take_eight_append hle,
        drop_eight_append hle]
      exact hsome h

/-- **Reading the first message of a connection.** However the bytes of its frame and of `w` are
split into chunks, `read` returns the message; `buf` is the part of `w` it has taken off the
socket, and `buf` is empty as soon as some chunk ends with the frame. -/
theorem readOne_new_frame {m w : Bytes} {chunks : List Bytes} (hm : m.length < 2 ^ 64)
    (hc : chunks.flatten = frame 8 m ++ w) :
    ∃ (buf : Bytes) (rest : List Bytes),
      readOne new (chunks.map .ok) = .ready m { new with rBuf := buf } (rest.map .ok) ∧
      buf ++ rest.flatten = w ∧ (buf = [] ↔ ∃ k, (chunks.take k).flatten = frame 8 m) := by
  rcases readOne_chunks new chunks with ⟨m', buf, used, rest, hcut, hnext, hmin, hread⟩ | ⟨hnone, -⟩
  · simp only [new, List.nil_append] at hnext hmin
    -- the message is the one that was sent, and `buf` the part of `w` in the chunks `used`
    have hflat : used.flatten ++ rest.flatten = frame 8 m ++ w := by
      rw [← hc, hcut, List.flatten_append]
    obtain ⟨rfl, rfl⟩ : m' = m ∧ buf ++ rest.flatten = w := by
      have h := nextFrame_append hnext rest.flatten
      rw [hflat, nextFrame_frame hm] at h
      simpa [eq_comm] using h
    have hused : used.flatten = frame 8 m' ++ buf := by
      rw [← List.append_assoc] at hflat
      exact List.append_cancel_right hflat
    refine ⟨buf, rest, hread, rfl, ?_, ?_⟩
    · rintro rfl
      have htake : chunks.take used.length = used := by
        rw [hcut, List.take_left' rfl]
      exact ⟨used.length, by rw [htake, hused, List.append_nil]⟩
    · rintro ⟨k, hk⟩
      -- `read` stops at the latest at the cut, because a complete frame is there
      have hle : used.length ≤ k := by
        by_contra hlt
        have hlt := Nat.not_le.mp hlt
        have h := hmin k hlt
        have htake : used.take k = chunks.take k := by
          rw [hcut, List.take_append_of_le_length (Nat.le_of_lt hlt)]
        rw [htake, hk, ← List.append_nil (frame 8 m'), nextFrame_frame hm] at h
        cases h
      have hpre : (chunks.take k).flatten = used.flatten ++ (rest.take (k - used.length)).flatten := by
        rw [hcut, List.take_append, List.take_of_length_le hle, List.flatten_append]
      -- the first `k` chunks are no longer than the frame, so there is no room for `buf`
      have hlen := congrArg List.length hk
      rw [hpre, hused, List.length_append, List.length_append] at hlen
      have hzero : buf.length = 0 := by omega
      exact List.eq_nil_of_length_eq_zero hzero
  · simp only [new, List.nil_append] at hnone
    rw [hc, nextFrame_frame hm] at hnone
    cases hnone

/-- The switch to raw mode loses nothing: `read` returns the message, and after it every sequence
of reads through `AsyncRead` obtains the bytes of `w` from the first one on. -/
def SwitchesLossless (chunks : List Bytes) (m w : Bytes) : Prop :=
  ∃ (s : AntiStickyStream) (rest : List Bytes),
    readOne new (chunks.map .ok) = .ready m s (rest.map .ok) ∧
    ∀ ns : List Nat, s.rawRead rest.flatten ns = w.take ns.sum

/-- **Raw mode after framed mode.** The switch loses nothing exactly when one of the chunks the
socket returns ends where the frame of the message ends. -/
theorem switchesLossless_iff {m w : Bytes} {chunks : List Bytes} (hm : m.length < 2 ^ 64)
    (hc : chunks.flatten = frame 8 m ++ w) :
    SwitchesLossless chunks m w ↔ ∃ k, (chunks.take k).flatten = frame 8 m := by
  obtain ⟨buf, rest, hread, hw, hbuf⟩ := readOne_new_frame hm hc
  rw [← hbuf]
  constructor
  · rintro ⟨s, rest', hread', hraw⟩
    have hrest : rest'.flatten = rest.flatten := by
      rw [hread] at hread'
      have hinj : Function.Injective ReadBuf.ok := fun _ _ h => ReadBuf.ok.inj h
      rw [List.map_injective_iff.mpr hinj (Poll.ready.inj hread').2.2]
    -- one read with room for everything
    have h := hraw [rest.flatten.length + w.length]
    rw [rawRead_eq, hrest, List.sum_singleton, List.take_of_length_le (Nat.le_add_right _ _),
      List.take_of_length_le (Nat.le_add_left _ _), ← hw] at h
    exact List.self_eq_append_left.mp h
  · rintro rfl
    refine ⟨_, rest, hread, fun ns => ?_⟩
    rw [rawRead_eq, ← hw, List.nil_append]

/-- A service that speaks first: the client has sent the frame and the first byte of the service
in one segment, and the server reads both at once. -/
theorem not_switchesLossless_one_chunk :
    ¬ ∀ (m w : Bytes) (chunks : List Bytes), m.length < 2 ^ 64 →
        chunks.flatten = frame 8 m ++ w → SwitchesLossless chunks m w := by
  intro hall
  obtain ⟨s, rest, hread, hraw⟩ :=
    hall [123] [83] [[1, 0, 0, 0, 0, 0, 0, 0, 123, 83]] (by decide) (by decide)
  have hone : readOne new ([[1, 0, 0, 0, 0, 0, 0, 0, 123, 83]].map .ok)
      = .ready [123] { new with rBuf := [83] } [] := by decide
  rw [hone] at hread
  have hrest : rest = [] := by simpa using (Poll.ready.inj hread).2.2.symm
  have hbad := hraw [1]
  rw [rawRead_eq, hrest] at hbad
  simp at hbad

/-- The rule at a connection whose first chunk is the frame and whose second one is the tail. -/
theorem switchesLossless_two_chunks :
    SwitchesLossless [[1, 0, 0, 0, 0, 0, 0, 0, 123], [83, 83]] [123] [83, 83] :=
  (switchesLossless_iff (by decide) (by decide)).mpr ⟨1, by decide⟩

end Rslinker.AntiStickyStream
