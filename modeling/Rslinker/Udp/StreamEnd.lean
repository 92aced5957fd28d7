import Rslinker.Protocol.AntiSticky
import Rslinker.Udp.Relay

set_option autoImplicit false

/-! # The end of the tunnel in the relay loops of UDP

Both `copy` functions loop without an exit of their own. The server's returns when a read of the
stream fails, but sends the nothing that is read at the end of the stream as an empty datagram; the
client's does not look at the result of the read at all. So the loops end with their stream only when
they never see its end, or when the empty datagram cannot be sent.

A schedule says which arm of the `select!` is taken in one iteration after the other, and with which
results.
-/

namespace Rslinker.Udp

inductive CopyEvent
  /-- `stream.read_buf` has returned; `sent` tells whether sending the datagram succeeds. -/
  | stream (read : ReadBuf) (sent : Bool)
  /-- The other arm has returned data, or an error (on the server also the timeout); `written` tells
  whether `write_all` succeeds. -/
  | socket (read : Option Bytes) (written : Bool)
  deriving DecidableEq, Repr

structure Copy where
  /-- The datagrams that it has sent. -/
  sent : List Bytes
  /-- The bytes that it has written to the stream. -/
  written : Bytes
  returned : Bool
  deriving DecidableEq, Repr

namespace Copy

def start : Copy := ⟨[], [], false⟩

def stop (s : Copy) : Copy := { s with returned := true }

/-- `udp_recver.write(..).await?` and `socket.send(..).await?`. -/
def send (s : Copy) (datagram : Bytes) (sent : Bool) : Copy :=
  if sent then { s with sent := s.sent ++ [datagram] } else s.stop

/-- The other arm: `stream.write_all(..).await?` of what has been received. -/
def relay (s : Copy) (read : Option Bytes) (written : Bool) : Copy :=
  match read with
  | none => s.stop
  | some data => if written then { s with written := s.written ++ data } else s.stop

/-- The body of the server's `copy`. -/
def serverCopy (s : Copy) : CopyEvent → Copy
  | .stream (.ok data) sent => s.send data sent
  | .stream .err _ => s.stop
  | .socket read written => s.relay read written

/-- The body of the client's `copy`. The result of the read is dropped, and a read that fails leaves
the buffer empty. -/
def clientCopy (s : Copy) : CopyEvent → Copy
  | .stream (.ok data) sent => s.send data sent
  | .stream .err sent => s.send [] sent
  | .socket read written => s.relay read written

end Copy

inductive Side
  | server
  | client
  deriving DecidableEq, Repr

namespace Side

def copy : Side → Copy → CopyEvent → Copy
  | .server => Copy.serverCopy
  | .client => Copy.clientCopy

/-- An iteration, as long as the loop has not returned. -/
def iterate (side : Side) (s : Copy) (e : CopyEvent) : Copy :=
  if s.returned then s else side.copy s e

/-- The loop after these iterations. -/
def after (side : Side) (events : List CopyEvent) : Copy := events.foldl side.iterate .start

/-- The loop after the first `n` iterations of a schedule. -/
def state (side : Side) (schedule : Nat → CopyEvent) (n : Nat) : Copy :=
  side.after ((List.range n).map schedule)

theorem after_concat (side : Side) (events : List CopyEvent) (e : CopyEvent) :
    side.after (events ++ [e]) = side.iterate (side.after events) e := by
  rw [after, List.foldl_append]
  rfl

theorem state_succ (side : Side) (schedule : Nat → CopyEvent) (n : Nat) :
    side.state schedule (n + 1) = side.iterate (side.state schedule n) (schedule n) := by
  rw [state, List.range_succ, List.map_append, List.map_singleton, after_concat]
  rfl

end Side

/-! ## The end of the stream

At the end of a stream a read returns `Ok(0)`, at once and every time. The loops treat it as a read
of zero bytes and send them, and an iteration that has found the end returns only when this send
fails. On a UDP socket it does not: an empty datagram is a datagram like any other. -/

/-- The read of the stream returns `Ok(0)` or fails. -/
def CopyEvent.ends : CopyEvent → Bool
  | .stream (.ok []) _ | .stream .err _ => true
  | .stream (.ok (_ :: _)) _ | .socket _ _ => false

namespace Side

/-- The iteration sends an empty datagram for the end of the stream, or on the client for an error. -/
def sendsEmpty : Side → CopyEvent → Bool
  | _, .stream (.ok []) sent => sent
  | .client, .stream .err sent => sent
  | _, _ => false

/-- What the iteration does when it does not send an empty datagram: it returns at the end of the
stream, and it adds nothing empty to what has been sent. -/
structure Sound (s t : Copy) (e : CopyEvent) : Prop where
  returns : e.ends = true → t.returned = true
  sent : ∀ datagram ∈ t.sent, datagram ∈ s.sent ∨ datagram ≠ []

theorem relay_sent (s : Copy) (read : Option Bytes) (written : Bool) :
    (s.relay read written).sent = s.sent := by
  unfold Copy.relay
  split
  · rfl
  · split
    all_goals rfl

theorem send_sent {s : Copy} {data : Bytes} {sent : Bool} (hdata : data ≠ []) :
    ∀ datagram ∈ (s.send data sent).sent, datagram ∈ s.sent ∨ datagram ≠ [] := by
  intro datagram hmem
  cases sent with
  | false => exact Or.inl hmem
  | true =>
      rcases List.mem_append.mp hmem with hold | hnew
      · exact Or.inl hold
      · rw [List.mem_singleton.mp hnew]
        exact Or.inr hdata

/-- **One iteration** without an empty datagram. -/
theorem sound_of_not_sendsEmpty (side : Side) (s : Copy) {e : CopyEvent}
    (he : side.sendsEmpty e = false) : Sound s (side.copy s e) e := by
  rcases e with ⟨(_ | ⟨b, data⟩) | _, sent⟩ | ⟨read, written⟩
  · have hnot : sent = false := by
      cases side
      all_goals exact he
    rw [hnot]
    cases side
    all_goals exact ⟨fun _ => rfl, fun _ h => Or.inl h⟩
  · cases side
    all_goals exact ⟨nofun, send_sent (by simp)⟩
  · cases side with
    | server => exact ⟨fun _ => rfl, fun _ h => Or.inl h⟩
    | client =>
        have hnot : sent = false := he
        rw [hnot]
        exact ⟨fun _ => rfl, fun _ h => Or.inl h⟩
  · have hsame : (side.copy s (.socket read written)).sent = s.sent := by
      cases side
      all_goals exact relay_sent s read written
    exact ⟨nofun, fun _ h => Or.inl (hsame ▸ h)⟩

/-- The other iterations send an empty datagram. -/
theorem sent_of_sendsEmpty (side : Side) (s : Copy) {e : CopyEvent} (he : side.sendsEmpty e = true) :
    (side.copy s e).sent = s.sent ++ [[]] ∧ (side.copy s e).returned = s.returned := by
  rcases e with ⟨(_ | ⟨b, data⟩) | _, sent⟩ | ⟨read, written⟩
  · have hsent : sent = true := by
      cases side
      all_goals exact he
    rw [hsent]
    cases side
    all_goals exact ⟨rfl, rfl⟩
  · cases side
    all_goals cases he
  · cases side with
    | server => cases he
    | client =>
        have hsent : sent = true := he
        rw [hsent]
        exact ⟨rfl, rfl⟩
  · cases side
    all_goals cases he

/-! ## Schedules

A schedule is infinite, since the loops have no exit of their own. The theorem is an equivalence
over all schedules: what an iteration does wrong is visible in the iteration itself. -/

/-- The loop ends with its stream: once a read has found the end of the stream or failed, it returns,
and no datagram that it ever sends is empty. -/
structure EndsWithStream (side : Side) (schedule : Nat → CopyEvent) : Prop where
  returns : ∀ n, (side.state schedule n).returned = false → (schedule n).ends = true →
    ∃ m, (side.state schedule m).returned = true
  carries : ∀ n, ∀ datagram ∈ (side.state schedule n).sent, datagram ≠ []

/-- **A relay loop ends with its stream** exactly when no iteration sends the nothing that is read at
its end, or on the client after an error, as a datagram. -/
theorem ends_with_stream_iff (side : Side) (schedule : Nat → CopyEvent) :
    EndsWithStream side schedule ↔
      ∀ n, (side.state schedule n).returned = false → side.sendsEmpty (schedule n) = false := by
  constructor
  · intro h n hrunning
    by_contra hsends
    rw [Bool.not_eq_false] at hsends
    obtain ⟨hsent, -⟩ := sent_of_sendsEmpty side (side.state schedule n) hsends
    -- the datagram of this iteration is empty
    have hnext : side.state schedule (n + 1) = side.copy (side.state schedule n) (schedule n) := by
      rw [state_succ, iterate, hrunning]
      rfl
    exact h.carries (n + 1) [] (by rw [hnext, hsent]; simp) rfl
  · intro h
    have hsound : ∀ n, (side.state schedule n).returned = false →
        Sound (side.state schedule n) (side.state schedule (n + 1)) (schedule n) := by
      intro n hrunning
      rw [state_succ, iterate, hrunning]
      exact sound_of_not_sendsEmpty side _ (h n hrunning)
    constructor
    · intro n hrunning hends
      exact ⟨n + 1, (hsound n hrunning).returns hends⟩
    · intro n
      induction n with
      | zero => simp [state, after, Copy.start]
      | succ n ih =>
          cases hrunning : (side.state schedule n).returned with
          | true =>
              -- a loop that has returned sends nothing more
              rw [state_succ, iterate, hrunning]
              exact ih
          | false =>
              intro datagram hmem
              exact ((hsound n hrunning).sent datagram hmem).elim (ih datagram) id

/-- The stream ends at once. -/
def atEnd : Nat → CopyEvent := fun _ => .stream (.ok []) true

/-- **Behind the end of the stream** both loops send empty datagrams and never return. -/
theorem state_atEnd (side : Side) (n : Nat) :
    side.state atEnd n = ⟨List.replicate n [], [], false⟩ := by
  induction n with
  | zero => rfl
  | succ n ih =>
      rw [state_succ, ih, List.replicate_succ']
      cases side
      all_goals rfl

theorem not_ends_with_stream :
    ¬ ∀ (side : Side) (schedule : Nat → CopyEvent), EndsWithStream side schedule := by
  intro hall
  obtain ⟨m, hm⟩ := (hall .server atEnd).returns 0 rfl rfl
  rw [state_atEnd] at hm
  cases hm

/-! ## The loops of a session

The sessions of `Relay.lean` have one state for the stream between the two loops, and steps at both
ends of it. Seen from one end, a run of a session is a list of iterations of the loop there. -/

/-- A loop that has sent these datagrams has gone through some iterations. -/
def Went (side : Side) (sent : List Bytes) (returned : Bool) : Prop :=
  ∃ events, (side.after events).sent = sent ∧ (side.after events).returned = returned

variable {side : Side} {sent : List Bytes} {returned : Bool}

theorem Went.send (h : side.Went sent false) (datagram : Bytes) :
    side.Went (sent ++ [datagram]) false := by
  obtain ⟨events, rfl, hreturned⟩ := h
  refine ⟨events ++ [.stream (.ok datagram) true], ?_⟩
  rw [after_concat, iterate, hreturned]
  cases side
  all_goals exact ⟨rfl, hreturned⟩

theorem Went.stop (h : side.Went sent returned) : side.Went sent true := by
  obtain ⟨events, rfl, hreturned⟩ := h
  refine ⟨events ++ [.socket none false], ?_⟩
  rw [after_concat, iterate]
  cases hr : (side.after events).returned with
  | true => exact ⟨rfl, hr⟩
  | false =>
      cases side
      all_goals exact ⟨rfl, rfl⟩

/-- A read of the stream in a session is sent. -/
theorem emitted_of_read {room n : Nat} {l l' : Lane} (h : l.read room n = some l') :
    ∃ datagram, l'.emitted = l.emitted ++ [datagram] := by
  obtain ⟨-, h⟩ := Option.ite_none_right_eq_some.mp h
  cases h
  exact ⟨_, rfl⟩

theorem emitted_of_write {n : Nat} {l l' : Lane} (h : l.write n = some l') :
    l'.emitted = l.emitted := by
  obtain ⟨-, h⟩ := Option.ite_none_right_eq_some.mp h
  cases h
  rfl

/-- **The loops of a session** are the two loops: what they send goes to the peer and to the local
service. -/
theorem went_of_run {room : Nat} {s : Session} (h : Reaches (Session.step room) .init s) :
    server.Went s.down.emitted s.serverDone ∧ client.Went s.up.emitted s.clientDone := by
  refine run_invariant (P := fun s : Session =>
    server.Went s.down.emitted s.serverDone ∧ client.Went s.up.emitted s.clientDone) ?_
    ⟨⟨[], rfl, rfl⟩, ⟨[], rfl, rfl⟩⟩ h
  rintro s a t ⟨hserver, hclient⟩ hstep
  cases a with
  | peerSend datagram | localSend datagram =>
      cases hstep
      exact ⟨hserver, hclient⟩
  | serverTake | clientTake =>
      simp only [Session.step] at hstep
      split at hstep
      · obtain ⟨-, hstep⟩ := Option.ite_none_right_eq_some.mp hstep
        cases hstep
        exact ⟨hserver, hclient⟩
      · cases hstep
  | serverWrite n =>
      obtain ⟨-, hstep⟩ := Option.ite_none_right_eq_some.mp hstep
      obtain ⟨up, hup, rfl⟩ := Option.map_eq_some_iff.mp hstep
      refine ⟨hserver, ?_⟩
      show client.Went up.emitted s.clientDone
      rw [emitted_of_write hup]
      exact hclient
  | clientWrite n =>
      obtain ⟨-, hstep⟩ := Option.ite_none_right_eq_some.mp hstep
      obtain ⟨down, hdown, rfl⟩ := Option.map_eq_some_iff.mp hstep
      refine ⟨?_, hclient⟩
      show server.Went down.emitted s.serverDone
      rw [emitted_of_write hdown]
      exact hserver
  | serverRead n =>
      obtain ⟨⟨hrunning, -⟩, hstep⟩ := Option.ite_none_right_eq_some.mp hstep
      obtain ⟨down, hdown, rfl⟩ := Option.map_eq_some_iff.mp hstep
      obtain ⟨datagram, hemitted⟩ := emitted_of_read hdown
      refine ⟨?_, hclient⟩
      show server.Went down.emitted s.serverDone
      rw [hemitted, hrunning]
      exact (hrunning ▸ hserver).send datagram
  | clientRead n =>
      obtain ⟨⟨hrunning, -⟩, hstep⟩ := Option.ite_none_right_eq_some.mp hstep
      obtain ⟨up, hup, rfl⟩ := Option.map_eq_some_iff.mp hstep
      obtain ⟨datagram, hemitted⟩ := emitted_of_read hup
      refine ⟨hserver, ?_⟩
      show client.Went up.emitted s.clientDone
      rw [hemitted, hrunning]
      exact (hrunning ▸ hclient).send datagram
  | clientReadErr =>
      obtain ⟨⟨hrunning, -⟩, hstep⟩ := Option.ite_none_right_eq_some.mp hstep
      cases hstep
      refine ⟨hserver, ?_⟩
      show client.Went (s.up.emitted ++ [[]]) s.clientDone
      rw [hrunning]
      exact (hrunning ▸ hclient).send []
  | serverStop =>
      cases hstep
      exact ⟨hserver.stop, hclient⟩
  | clientStop =>
      cases hstep
      exact ⟨hserver, hclient.stop⟩

end Side

end Rslinker.Udp
