import Rslinker.Protocol.Message
import Mathlib.Data.List.TakeWhile

set_option autoImplicit false

/-! # The accept loop of the server

`Server::run` accepts connections through its factory and hands each to `on_new_connection`, which
serves it in a task of its own. The loop is left at the first error of `Factory::accept`. The
factories report with such an error what concerns a single connection as well as what concerns the
listener, so one failed handshake is enough to end the loop.

The other way would be to go on after an error that concerns one connection. The theorem says
exactly what the loop gives away: the connections that succeed behind the first failure.
-/

namespace Rslinker

inductive AcceptError
  /-- The listener or the endpoint could not accept. -/
  | listener
  /-- "Endpoint is closed" -/
  | endpointClosed
  | setNodelay
  /-- The TLS handshake of one connection. -/
  | handshake
  /-- The QUIC handshake of one connection. -/
  | connection
  /-- A QUIC connection that opens no stream. -/
  | stream
  deriving DecidableEq, Repr

/-- The error ends the listener, not only one connection. -/
def AcceptError.ofListener : AcceptError → Bool
  | .listener | .endpointClosed => true
  | .setNodelay | .handshake | .connection | .stream => false

/-- The `accept` of a factory, on what its awaits return. -/
structure Factory (ι σ : Type) where
  accept : ι → Except AcceptError (σ × SocketAddr)

/-! ## The factories

The four factories of the program, each on what its awaits return. TCP has one more fallible call
after the accept, TLS a handshake, and QUIC a handshake and the first stream; KCP has the accept
only. All of them use `?`, so the caller cannot tell an error of one peer from an error of the
listener. -/

section Factories

variable {σ : Type}

/-- `.await?`, on an await that fails with `err`. -/
def awaited {β : Type} (err : AcceptError) : Option β → Except AcceptError β
  | some b => .ok b
  | none => .error err

structure TcpIncoming (σ : Type) where
  accepted : Option (σ × SocketAddr)
  setNodelay : Option Unit

def tcpFactory : Factory (TcpIncoming σ) σ where
  accept i := do
    let (socket, addr) ← awaited .listener i.accepted
    awaited .setNodelay i.setNodelay
    pure (socket, addr)

structure TlsIncoming (σ : Type) where
  accepted : Option (σ × SocketAddr)
  handshake : σ → Option σ

def tlsFactory : Factory (TlsIncoming σ) σ where
  accept i := do
    let (socket, addr) ← awaited .listener i.accepted
    let tls ← awaited .handshake (i.handshake socket)
    pure (tls, addr)

structure QuicIncoming (σ : Type) where
  /-- The connection to wait for, `none` when the endpoint is closed, with what it resolves to. -/
  connection : Option (Option SocketAddr)
  acceptBi : Option σ

def quicFactory : Factory (QuicIncoming σ) σ where
  accept i := do
    let connection ← awaited .endpointClosed i.connection
    let addr ← awaited .connection connection
    let stream ← awaited .stream i.acceptBi
    pure (stream, addr)

def kcpFactory : Factory (Option (σ × SocketAddr)) σ where
  accept i := do
    let (socket, addr) ← awaited .listener i
    pure (socket, addr)

end Factories

/-! ## The loop

The loop is a `while` over `accept` that returns the error. Which connections it serves depends on
the results up to the first error only, and so whether it serves all of them is decided by what
comes later: a connection that would have been accepted behind a failed one. -/

namespace Server

variable {ι σ : Type}

/-- The loop of `Server::run`: the sockets it hands to `on_new_connection`, and the error it
returns; `none` while it waits for the next connection. -/
def acceptLoop (factory : Factory ι σ) : List ι → List σ × Option AcceptError
  | [] => ([], none)
  | i :: rest =>
      match factory.accept i with
      | .ok (socket, _) =>
          let (handed, err) := acceptLoop factory rest
          (socket :: handed, err)
      | .error err => ([], some err)

def accepted (factory : Factory ι σ) (i : ι) : Option σ :=
  (factory.accept i).toOption.map Prod.fst

/-- Every successful connection is handed on. -/
def AllServed (factory : Factory ι σ) (incoming : List ι) : Prop :=
  (acceptLoop factory incoming).1 = incoming.filterMap (accepted factory)

/-- All errors concern single connections: the listener stays usable. -/
def ListenerUsable (factory : Factory ι σ) (incoming : List ι) : Prop :=
  ∀ i ∈ incoming, ∀ err, factory.accept i = .error err → err.ofListener = false

/-- No connection succeeds after one that has failed. -/
def NoneAfterError (factory : Factory ι σ) (incoming : List ι) : Prop :=
  incoming.Pairwise fun i j => accepted factory i = none → accepted factory j = none

/-- The loop serves the connections before the first failure. -/
theorem acceptLoop_eq (factory : Factory ι σ) (incoming : List ι) :
    (acceptLoop factory incoming).1
      = (incoming.takeWhile fun i => (accepted factory i).isSome).filterMap (accepted factory) := by
  induction incoming with
  | nil => rfl
  | cons i rest ih =>
      rcases hi : factory.accept i with err | ⟨socket, addr⟩
      · have hnone : accepted factory i = none := by
          rw [accepted, hi]
          rfl
        simp [acceptLoop, hi, hnone]
      · have hsome : accepted factory i = some socket := by
          rw [accepted, hi]
          rfl
        simp [acceptLoop, hi, hsome, ih]

/-- **The accept loop.** For every factory and every sequence of results of its `accept`, all
successful connections are served exactly when none of them comes after a failure. -/
theorem allServed_iff (factory : Factory ι σ) (incoming : List ι) :
    AllServed factory incoming ↔ NoneAfterError factory incoming := by
  unfold AllServed NoneAfterError
  rw [acceptLoop_eq]
  induction incoming with
  | nil => simp
  | cons i rest ih =>
      rcases hi : accepted factory i with _ | socket
      · simp only [List.takeWhile_cons, hi, Option.isSome_none, Bool.false_eq_true, if_false,
          List.filterMap_nil, List.filterMap_cons, List.pairwise_cons, true_implies]
        constructor
        · intro h
          have hall : ∀ j ∈ rest, accepted factory j = none :=
            List.filterMap_eq_nil_iff.mp h.symm
          exact ⟨hall, List.pairwise_of_forall_mem_list fun j _ k hk _ => hall k hk⟩
        · rintro ⟨hall, -⟩
          exact (List.filterMap_eq_nil_iff.mpr hall).symm
      · simp [hi, ih]

/-- A loop without failures serves everything. -/
theorem allServed_of_accepted {factory : Factory ι σ} {incoming : List ι}
    (h : ∀ i ∈ incoming, (accepted factory i).isSome) : AllServed factory incoming := by
  unfold AllServed
  rw [acceptLoop_eq, List.takeWhile_eq_self_iff.mpr h]

/-- **KCP**: its factory reports no error of a single connection, so the loop ends with the listener
only. -/
theorem kcp_allServed {incoming : List (Option (σ × SocketAddr))}
    (h : ListenerUsable kcpFactory incoming) : AllServed kcpFactory incoming := by
  refine allServed_of_accepted fun i hi => ?_
  cases i with
  | none => cases h none hi .listener rfl
  | some s => rfl

/-- **TCP**: the same, as long as `set_nodelay` succeeds on every socket. -/
theorem tcp_allServed {incoming : List (TcpIncoming σ)} (h : ListenerUsable tcpFactory incoming)
    (hset : ∀ i ∈ incoming, i.setNodelay = some ()) : AllServed tcpFactory incoming := by
  refine allServed_of_accepted fun i hi => ?_
  have hnodelay := hset i hi
  rcases i with ⟨_ | s, setNodelay⟩
  · cases h _ hi .listener rfl
  · obtain rfl : setNodelay = some () := hnodelay
    rfl

/-- A peer whose handshake fails, or that opens no stream, and another one that succeeds. -/
theorem not_allServed_handshake :
    ¬ (∀ incoming : List (TlsIncoming Nat),
        ListenerUsable tlsFactory incoming → AllServed tlsFactory incoming) ∧
      ¬ ∀ incoming : List (QuicIncoming Nat),
        ListenerUsable quicFactory incoming → AllServed quicFactory incoming := by
  constructor
  · intro hall
    have h := hall [⟨some (1, ⟨.v4 0, 0⟩), fun _ => none⟩, ⟨some (2, ⟨.v4 0, 0⟩), some⟩]
      (by simp [ListenerUsable, tlsFactory, awaited, bind, Except.bind, pure, Except.pure,
        AcceptError.ofListener])
    cases h
  · intro hall
    have h := hall [⟨some (some ⟨.v4 0, 0⟩), none⟩, ⟨some (some ⟨.v4 0, 0⟩), some 2⟩]
      (by simp [ListenerUsable, quicFactory, awaited, bind, Except.bind, pure, Except.pure,
        AcceptError.ofListener])
    cases h

end Server

end Rslinker
