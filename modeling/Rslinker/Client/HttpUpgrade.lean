import Rslinker.Client.HttpHeaders
import Rslinker.Client.HttpOrder

set_option autoImplicit false

/-! # Heads that get through

`execute` takes every result of `llhttp_execute` but `HPE_OK` for an error, and the loop returns it
before it looks at what has been reported. So a complete head gets through only when `llhttp_execute`
returns `HPE_OK` for the read that completes it, and for a head that asks for an upgrade it returns
`HPE_PAUSED_UPGRADE`, which is no error of the head. What gets through is the head itself when its
fields stay apart in the maps (`FieldsApart`) and its request line is not replaced by that of a
further request in the same read (`LineKept`).
-/

namespace Rslinker

namespace HttpChannel

/-- Behind the flushes the local service has got what the loop has put. -/
theorem toLocal_of_drained {t : HttpSetup} {events : List HttpEvent} {c c' : HttpChannel t.llhttp}
    {flushes : List RelayEvent} (hdone : loop t (new t.llhttp) events = .done c)
    (hflush : ∀ act ∈ flushes, act.Flushes) (hrun : run relay c flushes = some c')
    (hdrained : c'.Drained) : c'.toLocal = (puts t (new t.llhttp) events).flatMap Put.bytes := by
  calc c'.toLocal = c'.out := by rw [out, hdrained.1, List.append_nil]
    _ = c.out ++ copied flushes := run_relay_out hrun
    _ = c.out := by rw [copied_of_flushes hflush, List.append_nil]
    _ = _ := out_of_done hdone

end HttpChannel

namespace HttpLink

open Internal HttpChannel

variable {link : HttpLink} {events : List HttpEvent} {x tail : Bytes} {head : Head} {d : Internal}

/-- The channel forwards the head: its request line, its fields with the values that are due to them,
and the blank line, with some body data behind it. Then its raw relay starts. -/
def GetsThrough (link : HttpLink) (head : Head) (events : List HttpEvent) : Prop :=
  ∃ c flushes c' lines content, loop link.setup (new link.setup.llhttp) events = .done c ∧
    (∀ act ∈ flushes, act.Flushes) ∧ run relay c flushes = some c' ∧ c'.Drained ∧
    link.pieces events = .requestLine head.method head.url head.version ::
      (asLines lines ++ [.blank, .content content]) ∧
    lines.Perm (head.fields.map link.setup.due) ∧
    c'.toLocal = (link.pieces events).flatMap Put.bytes

/-- **No head that asks for an upgrade gets through**, however it is divided into reads and whatever
follows: behind it llhttp pauses. It does so for every `CONNECT` request, and for one with
`Connection: upgrade` and an `Upgrade` field that has no body. -/
theorem not_getsThrough_of_upgrade {code major minor : Nat} (h : IsHead head code major minor)
    (hread : init.readHead head code major minor = .ok d) (hupgrade : d.method = httpConnect ∨
      d.flags.upgrade ∧ d.flags.connectionUpgrade ∧ ¬ d.flags.chunked ∧ d.contentLength = 0)
    (hbrings : Brings events head.bytes tail) : ¬ GetsThrough link head events := by
  obtain ⟨s, hhead⟩ := h.reads hread
  have hpause := hhead.pauses hbrings.bytes ((announce_pauses _).mpr hupgrade)
  rintro ⟨c, -, -, -, -, hdone, -⟩
  have hok := ((done_iff hhead hbrings).mp ⟨c, hdone⟩).errno
  rw [llhttpErrno, hpause] at hok
  cases hok

/-! ## A WebSocket handshake

The request with which every WebSocket connection begins. llhttp reads it without an error, calls
back that its headers are complete, and then pauses, since what follows is not HTTP any more. -/

/-- `GET / HTTP/1.1` with `Connection: Upgrade` and `Upgrade: websocket`. -/
def handshake : Head :=
  getHead [([67, 111, 110, 110, 101, 99, 116, 105, 111, 110], [85, 112, 103, 114, 97, 100, 101]),
    ([85, 112, 103, 114, 97, 100, 101], [119, 101, 98, 115, 111, 99, 107, 101, 116])]

end HttpLink

end Rslinker
