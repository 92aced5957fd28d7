import Rslinker.Basic.LittleEndian

set_option autoImplicit false

/-! # Length-prefixed frames

A frame is the length of a message in `k` little-endian bytes, followed by the message. The frames
of a list of messages, concatenated, are a stream from which the messages can be read back one by
one: `leDecode_take_frame` reads the header, `drop_frame` goes on to the message.

A stream has no boundaries of its own. A reader that counts wrongly once reads the rest of the
stream at wrong places, so what is proved about framed streams is about all messages up to some
point, never about one of them alone.
-/

namespace Rslinker

def frame (k : Nat) (m : Bytes) : Bytes := leEncode k m.length ++ m

def frames (k : Nat) (ms : List Bytes) : Bytes := ms.flatMap (frame k)

variable {k : Nat} {m : Bytes}

@[simp] theorem frames_nil (k : Nat) : frames k [] = [] := rfl

@[simp] theorem frames_cons (k : Nat) (m : Bytes) (ms : List Bytes) :
    frames k (m :: ms) = frame k m ++ frames k ms := List.flatMap_cons

@[simp] theorem frames_append (k : Nat) (ms ms' : List Bytes) :
    frames k (ms ++ ms') = frames k ms ++ frames k ms' := List.flatMap_append

@[simp] theorem frame_length (k : Nat) (m : Bytes) : (frame k m).length = k + m.length := by
  simp [frame]

/-- The header of the first frame holds the length of its message. -/
theorem leDecode_take_frame (h : m.length < 256 ^ k) (tail : Bytes) :
    leDecode ((frame k m ++ tail).take k) = m.length := by
  have htake : (frame k m ++ tail).take k = leEncode k m.length := by
    rw [frame, List.append_assoc, List.take_append_of_le_length (by simp),
      List.take_of_length_le (by simp)]
  rw [htake, leDecode_leEncode h]

theorem drop_frame (m tail : Bytes) : (frame k m ++ tail).drop k = m ++ tail := by
  rw [frame, List.append_assoc, List.drop_append_of_le_length (by simp),
    List.drop_of_length_le (by simp), List.nil_append]

end Rslinker
