import Rslinker.Protocol.RawMode

set_option autoImplicit false

/-! # Reading at the end of the connection

Once the peer has closed the connection, `read_buf` returns `Ok(0)` for ever. The loops of
`read_one` and `read_size` look at the length of the buffer only, so a call of `read` returns
exactly when the bytes that are left hold a complete message. `Controller::main_loop` and the loops
of the client wait for an empty message or an error to notice a disconnect.

A message of length zero is complete with its header, and so the only disconnect that a peer can
signal by data. A closed socket is none: the loops take the `Ok(0)`, find that the buffer is too
short, and read again. An error of the socket does end the call.
-/

namespace Rslinker.AntiStickyStream

/-- What `read_buf` returns when the peer sends `chunks` and closes, up to the `k`-th `Ok(0)`. -/
def closing (chunks : List Bytes) (k : Nat) : List ReadBuf :=
  (chunks ++ List.replicate k []).map .ok

theorem flatten_closing (chunks : List Bytes) (k : Nat) :
    (chunks ++ List.replicate k ([] : Bytes)).flatten = chunks.flatten := by
  simp

inductive Disconnect : Poll Bytes → Prop
  | empty (s : AntiStickyStream) (rest : List ReadBuf) : Disconnect (.ready [] s rest)
  | error (s : AntiStickyStream) (rest : List ReadBuf) : Disconnect (.failed s rest)

def Complete (s : AntiStickyStream) (chunks : List Bytes) (out : Poll Bytes) : Prop :=
  ∃ m tail s' rest, out = .ready m s' rest ∧
    nextFrame s.size (s.rBuf ++ chunks.flatten) = some (m, tail)

/-- The call of `read` returns after finitely many `read_buf` calls, with a message or with what
the callers take for a disconnect. -/
def ReadEnds (s : AntiStickyStream) (chunks : List Bytes) : Prop :=
  ∃ k, Complete s chunks (readOne s (closing chunks k)) ∨
    Disconnect (readOne s (closing chunks k))

/-- Without a complete message the call is still suspended after every number of `Ok(0)`. -/
theorem readOne_closing_pending {s : AntiStickyStream} {chunks : List Bytes}
    (h : nextFrame s.size (s.rBuf ++ chunks.flatten) = none) (k : Nat) :
    ∃ point s', readOne s (closing chunks k) = .pending point s' := by
  rcases readOne_chunks s (chunks ++ List.replicate k []) with
    ⟨m, buf, used, rest, hc, hnext, -, -⟩ | ⟨-, point, -, heq⟩
  · -- a message in the chunks read so far is a message in all of them
    have hfull := nextFrame_append hnext rest.flatten
    rw [List.append_assoc, ← List.flatten_append, ← hc, flatten_closing, h] at hfull
    cases hfull
  · exact ⟨point, _, heq⟩

theorem not_readEnds {s : AntiStickyStream} {chunks : List Bytes}
    (h : nextFrame s.size (s.rBuf ++ chunks.flatten) = none) : ¬ ReadEnds s chunks := by
  rintro ⟨k, hk⟩
  obtain ⟨point, s', heq⟩ := readOne_closing_pending h k
  rw [heq] at hk
  rcases hk with ⟨m, tail, t, rest, hout, -⟩ | hdis
  · cases hout
  · cases hdis

/-- With a complete message the call returns it, whatever comes after it. -/
theorem readOne_closing_ready {s : AntiStickyStream} {chunks : List Bytes} {m tail : Bytes}
    (h : nextFrame s.size (s.rBuf ++ chunks.flatten) = some (m, tail)) :
    ∃ s' rest, readOne s (closing chunks 0) = .ready m s' rest := by
  rcases readOne_chunks s chunks with ⟨m', buf, used, rest, hc, hnext, -, heq⟩ | ⟨hnone, -⟩
  · have hfull := nextFrame_append hnext rest.flatten
    rw [List.append_assoc, ← List.flatten_append, ← hc, h] at hfull
    obtain ⟨rfl, -⟩ := Prod.mk.inj (Option.some.inj hfull)
    exact ⟨_, _, by simpa [closing] using heq⟩
  · rw [h] at hnone
    cases hnone

/-- **Reading at the end of the connection.** From every state of the reader, a call of `read`
returns exactly when the bytes in the buffer and the remaining input hold a complete message. -/
theorem readEnds_iff (s : AntiStickyStream) (chunks : List Bytes) :
    ReadEnds s chunks ↔ (nextFrame s.size (s.rBuf ++ chunks.flatten)).isSome := by
  constructor
  · intro hends
    by_contra hnone
    exact not_readEnds (Option.not_isSome_iff_eq_none.mp hnone) hends
  · intro hsome
    obtain ⟨⟨m, tail⟩, hm⟩ := Option.isSome_iff_exists.mp hsome
    obtain ⟨s', rest, heq⟩ := readOne_closing_ready hm
    exact ⟨0, Or.inl ⟨m, tail, s', rest, heq, hm⟩⟩

/-- A peer that closes between two messages, or after three bytes of a header, or in the middle of
a body, leaves the reader in its loop for ever. -/
theorem not_readEnds_closed :
    ¬ ReadEnds new [] ∧ ¬ ReadEnds new [[5, 0, 0]] ∧
      ¬ ReadEnds { new with size := some 5 } [[1, 2], [3]] :=
  ⟨not_readEnds (by decide), not_readEnds (by decide), not_readEnds (by decide)⟩

end Rslinker.AntiStickyStream
