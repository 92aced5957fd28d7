import Rslinker.Basic.LittleEndian
import Rslinker.Basic.Segments
import Rslinker.Basic.Transition

set_option autoImplicit false

/-! # The relay of a UDP session

A session of an external peer is relayed to the local service through the tunnel, a reliable stream
of bytes. `UdpServer` receives the datagrams of the peer with a buffer of 4096 bytes and puts them
into the mailbox of the session; the server's `copy` writes them to the stream, and the client's
`copy` sends what each of its reads returns as one datagram. The other direction is the same, with
the buffer of 4096 bytes in the client's `copy`.

`room` is what a read finds in the empty `BytesMut` that both loops read into; the `bytes` crate
makes it 64.
-/

namespace Rslinker.Udp

structure Lane where
  /-- Datagrams that have arrived and that the loop has not yet taken. -/
  queue : List Bytes
  /-- What the `write_all` of the loop has still to write. -/
  pending : Bytes
  stream : Bytes
  /-- The writing end of the stream is closed. -/
  closed : Bool
  /-- The datagrams sent at the other end. -/
  emitted : List Bytes
  deriving DecidableEq, Repr

namespace Lane

def init : Lane := ⟨[], [], [], false, []⟩

def push (l : Lane) (datagram : Bytes) : Lane := { l with queue := l.queue ++ [datagram] }

/-- A `write` of the loop's `write_all` that takes `n` bytes. -/
def write (l : Lane) (n : Nat) : Option Lane :=
  if l.closed = false ∧ 0 < n ∧ n ≤ l.pending.length then
    some { l with pending := l.pending.drop n, stream := l.stream ++ l.pending.take n }
  else none

/-- A read that returns `n` bytes, `Ok(0)` at the end of the stream; they are sent as a datagram. -/
def read (room : Nat) (l : Lane) (n : Nat) : Option Lane :=
  if (0 < n ∧ n ≤ l.stream.length ∧ n ≤ room) ∨ (n = 0 ∧ l.closed ∧ l.stream = []) then
    some { l with stream := l.stream.drop n, emitted := l.emitted ++ [l.stream.take n] }
  else none

def close (l : Lane) : Lane := { l with closed := true }

end Lane

/-- A session: `up` leads from the external peer to the local service, `down` back. -/
structure Session where
  up : Lane
  down : Lane
  serverDone : Bool
  clientDone : Bool
  deriving DecidableEq, Repr

inductive Act
  /-- The receive loop of `UdpServer` gets a datagram of the peer. -/
  | peerSend (datagram : Bytes)
  /-- The client's UDP socket gets a datagram of the local service. -/
  | localSend (datagram : Bytes)
  /-- Server `copy`: `udp_recver.read()` returns and its data goes to `write_all`. -/
  | serverTake
  | serverWrite (n : Nat)
  /-- Server `copy`: `stream.read_buf` returns `n` bytes, which are sent to the peer. -/
  | serverRead (n : Nat)
  /-- Server `copy` returns: a failed read or write, or ten minutes without a datagram. -/
  | serverStop
  /-- Client `copy`: `recv_buf` returns and its data goes to `write_all`. -/
  | clientTake
  | clientWrite (n : Nat)
  /-- Client `copy`: `stream.read_buf` returns `n` bytes, which are sent to the service. -/
  | clientRead (n : Nat)
  /-- Client `copy`: `stream.read_buf` fails, which the loop does not look at. -/
  | clientReadErr
  | clientStop
  deriving DecidableEq, Repr

namespace Session

def init : Session := ⟨.init, .init, false, false⟩

/-- One step. A loop reads the stream in its `select!` only, so not while `write_all` runs. -/
def step (room : Nat) (s : Session) : Act → Option Session
  | .peerSend datagram => some { s with up := s.up.push (datagram.take 4096) }
  | .localSend datagram => some { s with down := s.down.push datagram }
  | .serverTake =>
      match s.up.queue with
      | data :: rest =>
          if s.serverDone = false ∧ s.up.pending = [] then
            some { s with up := { s.up with queue := rest, pending := data } }
          else none
      | [] => none
  | .serverWrite n =>
      if s.serverDone = false then (s.up.write n).map fun up => { s with up := up } else none
  | .serverRead n =>
      if s.serverDone = false ∧ s.up.pending = [] then
        (s.down.read room n).map fun down => { s with down := down }
      else none
  | .serverStop => some { s with serverDone := true, up := s.up.close }
  | .clientTake =>
      match s.down.queue with
      | datagram :: rest =>
          if s.clientDone = false ∧ s.down.pending = [] then
            some { s with down := { s.down with queue := rest, pending := datagram.take 4096 } }
          else none
      | [] => none
  | .clientWrite n =>
      if s.clientDone = false then (s.down.write n).map fun down => { s with down := down } else none
  | .clientRead n =>
      if s.clientDone = false ∧ s.down.pending = [] then
        (s.up.read room n).map fun up => { s with up := up }
      else none
  | .clientReadErr =>
      if s.clientDone = false ∧ s.down.pending = [] then
        some { s with up := { s.up with emitted := s.up.emitted ++ [[]] } }
      else none
  | .clientStop => some { s with clientDone := true, down := s.down.close }

end Session

/-! ## The inputs of a run

What enters a session from outside: the datagrams at its two ends, and how many bytes each read of
the tunnel returns. The reads are inputs because the stream may return any positive number of the
bytes that are there, up to the room in the buffer. -/

def peerSent (acts : List Act) : List Bytes :=
  acts.filterMap fun
    | .peerSend datagram => some datagram
    | _ => none

def localSent (acts : List Act) : List Bytes :=
  acts.filterMap fun
    | .localSend datagram => some datagram
    | _ => none

def clientReads (acts : List Act) : List Nat :=
  acts.filterMap fun
    | .clientRead n => some n
    | .clientReadErr => some 0
    | _ => none

def serverReads (acts : List Act) : List Nat :=
  acts.filterMap fun
    | .serverRead n => some n
    | _ => none

end Rslinker.Udp
