import Mathlib.Data.List.Infix

set_option autoImplicit false

/-! # Pieces of a stream

A list of pieces that has gone through a stream without boundaries is cut again by the reader. The
pieces that are read are the original ones exactly as far as they have the same lengths.

So a stream keeps the contents of what is sent through it and loses only the boundaries, and a
question about the pieces is a question about numbers. When pieces are cut off before they are
sent, because they do not fit into a buffer, the lengths have to agree with those before the cut.
-/

namespace Rslinker

variable {α : Type*}

/-- Pieces that were cut off after `room` elements, concatenated and cut again, are the original
pieces where their lengths agree with those before the cut. -/
theorem prefix_of_lengths {room : Nat} {read sent : List (List α)}
    (hshort : ∀ piece ∈ read, piece.length ≤ room)
    (hflat : read.flatten <+: (sent.map (List.take room)).flatten)
    (hlen : read.map List.length <+: sent.map List.length) : read <+: sent := by
  -- piece by piece: the first pieces are prefixes of one stream and have the same length
  induction read generalizing sent with
  | nil => exact List.nil_prefix
  | cons a read ih =>
      cases sent with
      | nil => simp at hlen
      | cons b sent =>
          simp only [List.map_cons, List.cons_prefix_cons] at hlen
          have hb : b.take room = b :=
            List.take_of_length_le (hlen.1 ▸ hshort a (by simp))
          simp only [List.map_cons, List.flatten_cons, hb] at hflat
          have hpre : a <+: b :=
            List.prefix_of_prefix_length_le ((List.prefix_append _ _).trans hflat)
              (List.prefix_append _ _) hlen.1.le
          have hab : a = b := hpre.eq_of_length hlen.1
          subst hab
          rw [List.cons_prefix_cons]
          exact ⟨rfl, ih (fun piece hp => hshort piece (by simp [hp]))
            ((List.prefix_append_right_inj a).mp hflat) hlen.2⟩

/-- **Boundaries are lengths.** -/
theorem prefix_iff_lengths {room : Nat} {read sent : List (List α)}
    (hshort : ∀ piece ∈ read, piece.length ≤ room)
    (hflat : read.flatten <+: (sent.map (List.take room)).flatten) :
    read <+: sent ↔ read.map List.length <+: sent.map List.length :=
  ⟨fun h => h.map _, prefix_of_lengths hshort hflat⟩

end Rslinker
