import Rslinker.Basic.Queue
import Rslinker.Basic.WriteOnce
import Rslinker.Client.Links
import Rslinker.Server.Ports

set_option autoImplicit false

/-! # Clients, a server, and the connections between them

The whole system: any number of client processes, the controllers of one server, the connections
that carry their messages, and the external connections that are to be joined with tunnels. Every
connection has a queue of messages in each direction, in the order they were written
(`Protocol/Fifo.lean`); every read and write can fail, and a failed write may have delivered its
message or not.

`reg` records what has happened: who opened which connection, which controller took it for its
session, which external connection was accepted where, and what each channel number was drawn for.
Ids and numbers are fresh when they are drawn.
-/

namespace Rslinker

abbrev ClientId := Nat

abbrev ConnId := Nat

abbrev ExtId := Nat

/-! ## Data

Sockets are names: what is relayed through them is the subject of other modules. A connection is
the name of one that a client has opened, for a session or as a tunnel, and an external connection
is one that a monitor has accepted. -/

/-- `LocalSocket`: an external connection on the server. -/
inductive LocalSocket
  | tcp (ext : ExtId)
  | udp (ext : ExtId)
  deriving DecidableEq, Repr

def LocalSocket.ext : LocalSocket → ExtId
  | .tcp x | .udp x => x

/-- The protocol behind `is_tcp` and `is_udp`. -/
def LocalSocket.protocol : LocalSocket → BasicProtocol
  | .tcp _ => .tcp
  | .udp _ => .udp

structure PendingSocket where
  socket : LocalSocket
  port : UInt16
  deriving DecidableEq, Repr

inductive Report
  | newTcp (ext : ExtId)
  | newUdp (ext : ExtId)
  | error
  deriving DecidableEq, Repr

def Report.socket : Report → Option LocalSocket
  | .newTcp x => some (.tcp x)
  | .newUdp x => some (.udp x)
  | .error => none

/-- `server::ChannelMessage::NewSocket`. -/
structure NewSocket where
  port : Port
  number : Nat
  socket : ConnId
  deriving DecidableEq, Repr

/-- A task that `make_tcp_channel` or `make_udp_channel` has spawned. -/
structure ChannelTask where
  controller : ControllerId
  protocol : BasicProtocol
  port : UInt16
  number : Nat
  socket : ConnId
  deriving DecidableEq, Repr

/-- A `Channel` of a client, with the client, the control connection whose message it answers, and
the transfer it starts. -/
structure Channel where
  client : ClientId
  session : ConnId
  id : Nat
  port : Port
  number : Nat
  transfer : TransferProtocol
  deriving DecidableEq, Repr

structure ConnInfo where
  owner : ClientId
  channel : Option Channel
  deriving DecidableEq, Repr

/-- An external connection that the server relays through a tunnel. -/
structure Join where
  controller : ControllerId
  socket : LocalSocket
  tunnel : ConnId
  deriving DecidableEq, Repr

/-- Where `exec` of a client stands: what it writes or reads next. -/
inductive ClientPhase
  | sendNewClient
  | awaitAccept
  | sendConfig
  | awaitConfig
  | serving
  | reconnecting
  | stopped
  deriving DecidableEq, Repr

structure ClientProc where
  client : Client
  phase : ClientPhase
  conn : ConnId

inductive Write
  | ok
  | failed (delivered : Bool)
  deriving DecidableEq, Repr

def Write.written : Write → Bool
  | .ok => true
  | .failed _ => false

def Write.delivered : Write → Bool
  | .ok => true
  | .failed delivered => delivered

/-! ## A client

`exec` alternates between writes and reads up to the acceptance of its configuration, and then
serves: it reads announcements, and writes heartbeats. A failed read or write ends the session, and
`exec` goes on with a new one or returns. -/

namespace ClientProc

/-- The message `exec` writes next: in `new_client`, `push_config` or `send_heartbeat`. -/
def outgoing (pr : ClientProc) : Option Client.JsonMessage :=
  match pr.phase with
  | .sendNewClient => some .newClient
  | .sendConfig => some pr.client.pushedConfig
  | .serving => some .heartbeat
  | _ => none

def afterWrite (pr : ClientProc) (written : Bool) : ClientProc :=
  if written then
    match pr.phase with
    | .sendNewClient => { pr with phase := .awaitAccept }
    | .sendConfig => { pr with phase := .awaitConfig }
    | _ => pr
  else { pr with phase := .reconnecting }

/-- The client reads a message of the server; `none` when the read or the decoding fails, and for
the empty message. A serving client runs into `todo!()` on any message but `NewChannel`, and into
`self.id.unwrap()` when it accepts a channel without an id. -/
def afterRead (pr : ClientProc) (msg : Option Server.JsonMessage) : ClientProc :=
  match pr.phase with
  | .awaitAccept =>
      match msg with
      | some (.acceptClient id) =>
          { pr with client := { pr.client with id := some id }, phase := .sendConfig }
      | _ => { pr with phase := .reconnecting }
  | .awaitConfig =>
      match pr.client.pushConfig (Client.receivedReply msg) with
      | (.ok, client) => { pr with client := client, phase := .serving }
      | (.err _, client) => { pr with client := client, phase := .reconnecting }
      | (.panicked, client) => { pr with client := client, phase := .stopped }
  | .serving =>
      match msg with
      | some (.newChannel port _) =>
          if (pr.client.config.links.lookup port).isSome && pr.client.id.isNone then
            { pr with phase := .stopped }
          else pr
      | some _ => { pr with phase := .stopped }
      | none => { pr with phase := .reconnecting }
  | _ => pr

/-- `accept_channel`: the channel a serving client starts on `NewChannel`. -/
def startedChannel (k : ClientId) (pr : ClientProc) (msg : Option Server.JsonMessage) :
    Option Channel :=
  match pr.phase, msg, pr.client.id with
  | .serving, some (.newChannel port number), some id =>
      (pr.client.config.links.lookup port).map fun transfer =>
        ⟨k, pr.conn, id, port, number, transfer⟩
  | _, _, _ => none

def isReading (pr : ClientProc) : Bool :=
  match pr.phase with
  | .awaitAccept | .awaitConfig | .serving => true
  | _ => false

end ClientProc

/-! ## The state

The clients, the controllers of the server, and what is between them: the messages on every
connection, the reports and sockets that wait for a controller, the tables of pending sockets, and
the tasks that have been spawned. The registry is a record of what has happened; a step looks into
it only to tell whether a connection, a controller, a client or a socket is new, and which
connection a controller serves. -/

structure Registry where
  conns : ConnId → Option ConnInfo
  /-- The connection a controller serves. -/
  sessions : ControllerId → Option ConnId
  /-- The links a client was started with. -/
  built : ClientId → Option Links
  /-- The controller and the port that accepted an external connection. -/
  accepted : ExtId → Option (ControllerId × Port)
  /-- The controller, the port and the external connection a channel number was drawn for. -/
  issued : Nat → Option (ControllerId × Port × LocalSocket)

structure World where
  reg : Registry
  server : PortSystem
  up : ConnId → List Client.JsonMessage
  down : ConnId → List Server.JsonMessage
  /-- `on_new_connection` has read the first message. -/
  served : ConnId → Bool
  procs : ClientId → Option ClientProc
  /-- Channels that have been started and have not yet opened their tunnel. -/
  channels : List Channel
  /-- The reports queued for `monitor_leader.receive`. -/
  reports : ControllerId → List (Port × Report)
  /-- The messages queued for `server_employee.wait`. -/
  mailbox : ControllerId → List NewSocket
  pending : ControllerId → Nat → Option PendingSocket
  tasks : List ChannelTask
  joins : List Join

namespace World

def init : World where
  reg := ⟨fun _ => none, fun _ => none, fun _ => none, fun _ => none, fun _ => none⟩
  server := .init
  up _ := []
  down _ := []
  served _ := false
  procs _ := none
  channels := []
  reports _ := []
  mailbox _ := []
  pending _ _ := none
  tasks := []
  joins := []

/-! ## Steps of a client

A client has steps of `exec`, a step by which it is started with a configuration, and steps of the
tasks that it has spawned for channels. Each constructor of `ProcDoes` and `ClientDoes` is one way
to go on, with its guards; later proofs are by cases on these. -/

inductive ClientAct
  /-- `run_client_with_config` starts the client `k` on the new connection `q`. -/
  | start (q : ConnId) (config : List Config.Link) (acceptConflict : Bool)
      (heartbeatInterval : Option UInt64) (retryTimes : UInt32)
  | write (result : Write)
  /-- The client reads the next message, or the read fails. -/
  | read (received : Bool)
  /-- `reconnect_to_server` succeeds with the new connection, or gives up. -/
  | reconnect (q : Option ConnId)
  /-- A channel task has connected to its local target, opens its tunnel `q` and announces itself. -/
  | openTunnel (channel : Channel) (q : ConnId)
  /-- A channel task fails before that. -/
  | dropChannel (channel : Channel)

def setProc (w : World) (k : ClientId) (pr : ClientProc) : World :=
  { w with procs := Function.update w.procs k (some pr) }

def sendUp (w : World) (q : ConnId) (msg : Client.JsonMessage) : World :=
  { w with up := Function.update w.up q (w.up q ++ [msg]) }

def sendDown (w : World) (q : ConnId) (msg : Server.JsonMessage) : World :=
  { w with down := Function.update w.down q (w.down q ++ [msg]) }

def dropUp (w : World) (q : ConnId) : World :=
  { w with up := Function.update w.up q (w.up q).tail }

def dropDown (w : World) (q : ConnId) : World :=
  { w with down := Function.update w.down q (w.down q).tail }

/-- A new connection; `none` when `q` is not fresh. -/
def connect (w : World) (q : ConnId) (info : ConnInfo) : Option World :=
  if w.reg.conns q = none then
    some { w with reg := { w.reg with conns := record w.reg.conns q info } }
  else none

/-- `accept_channel` after a read: the started channel is added to the tasks. -/
def startChannel (w : World) (channel : Option Channel) : World :=
  { w with channels := w.channels ++ channel.toList }

/-- The steps of the client `k` that is in the state `pr`. -/
def procStep (w : World) (k : ClientId) (pr : ClientProc) : ClientAct → Option World
  | .write result =>
      pr.outgoing.map fun msg =>
        let w := w.setProc k (pr.afterWrite result.written)
        if result.delivered then w.sendUp pr.conn msg else w
  | .read received =>
      if pr.isReading then
        if received then
          match w.down pr.conn with
          | msg :: _ =>
              some (((w.dropDown pr.conn).setProc k (pr.afterRead (some msg))).startChannel
                (pr.startedChannel k (some msg)))
          | [] => none
        else some (w.setProc k (pr.afterRead none))
      else none
  | .reconnect q =>
      if pr.phase = .reconnecting then
        match q with
        | some q =>
            (w.connect q ⟨k, none⟩).map fun w =>
              w.setProc k { pr with phase := .sendNewClient, conn := q }
        | none => some (w.setProc k { pr with phase := .stopped })
      else none
  | _ => none

/-- The steps of the client `k`, of `run_client_with_config` and of the channel tasks. -/
def clientStep (resolve : String → Option CacheAddr) (w : World) (k : ClientId) :
    ClientAct → Option World
  | .start q config acceptConflict heartbeatInterval retryTimes =>
      match w.reg.built k, buildLinks resolve ∅ config with
      | none, .ok links =>
          (w.connect q ⟨k, none⟩).map fun w =>
            { w with reg := { w.reg with built := record w.reg.built k links } }.setProc k
              ⟨⟨none, ⟨links, acceptConflict, heartbeatInterval, retryTimes⟩⟩, .sendNewClient, q⟩
      | _, _ => none
  | .openTunnel channel q =>
      if channel ∈ w.channels ∧ channel.client = k then
        (w.connect q ⟨k, some channel⟩).map fun w =>
          { w with channels := w.channels.erase channel }.sendUp q
            (.acceptChannel channel.id channel.port channel.number)
      else none
  | .dropChannel channel => some { w with channels := w.channels.erase channel }
  | a => (w.procs k).bind fun pr => w.procStep k pr a

/-- What the steps of `exec` do, one constructor for each way to go on. -/
inductive ProcDoes (w : World) (k : ClientId) (pr : ClientProc) : ClientAct → World → Prop
  | sent (msg : Client.JsonMessage) (result : Write) (hmsg : pr.outgoing = some msg)
      (hdelivered : result.delivered = true) :
      ProcDoes w k pr (.write result)
        ((w.setProc k (pr.afterWrite result.written)).sendUp pr.conn msg)
  | lost (msg : Client.JsonMessage) (result : Write) (hmsg : pr.outgoing = some msg)
      (hdelivered : result.delivered = false) :
      ProcDoes w k pr (.write result) (w.setProc k (pr.afterWrite result.written))
  | received (msg : Server.JsonMessage) (rest : List Server.JsonMessage)
      (hreading : pr.isReading = true) (hdown : w.down pr.conn = msg :: rest) :
      ProcDoes w k pr (.read true)
        (((w.dropDown pr.conn).setProc k (pr.afterRead (some msg))).startChannel
          (pr.startedChannel k (some msg)))
  | readFails (hreading : pr.isReading = true) :
      ProcDoes w k pr (.read false) (w.setProc k (pr.afterRead none))
  | reconnect (q : ConnId) (u : World) (hphase : pr.phase = .reconnecting)
      (hu : w.connect q ⟨k, none⟩ = some u) :
      ProcDoes w k pr (.reconnect (some q))
        (u.setProc k { pr with phase := .sendNewClient, conn := q })
  | giveUp (hphase : pr.phase = .reconnecting) :
      ProcDoes w k pr (.reconnect none) (w.setProc k { pr with phase := .stopped })

theorem procStep_does {w w' : World} {k : ClientId} {pr : ClientProc} {a : ClientAct}
    (h : w.procStep k pr a = some w') : ProcDoes w k pr a w' := by
  cases a with
  | write result =>
      obtain ⟨msg, hmsg, rfl⟩ := Option.map_eq_some_iff.mp h
      simp only
      split
      · case isTrue hdelivered => exact .sent msg result hmsg hdelivered
      · case isFalse hlost => exact .lost msg result hmsg (by simpa using hlost)
  | read received =>
      obtain ⟨hreading, h⟩ := Option.ite_none_right_eq_some.mp h
      cases received with
      | false =>
          cases h
          exact .readFails hreading
      | true =>
          simp only [if_true] at h
          split at h
          · case h_1 msg rest hdown =>
              cases h
              exact .received msg rest hreading hdown
          · cases h
  | reconnect q =>
      obtain ⟨hphase, h⟩ := Option.ite_none_right_eq_some.mp h
      cases q with
      | none =>
          cases h
          exact .giveUp hphase
      | some q =>
          obtain ⟨u, hu, rfl⟩ := Option.map_eq_some_iff.mp h
          exact .reconnect q u hphase hu
  | start | openTunnel | dropChannel => cases h

/-- What the steps of a client do. -/
inductive ClientDoes (resolve : String → Option CacheAddr) (w : World) (k : ClientId) :
    ClientAct → World → Prop
  | start (q : ConnId) (config : List Config.Link) (acceptConflict : Bool)
      (heartbeatInterval : Option UInt64) (retryTimes : UInt32) (links : Links) (u : World)
      (hbuilt : w.reg.built k = none) (hlinks : buildLinks resolve ∅ config = .ok links)
      (hu : w.connect q ⟨k, none⟩ = some u) :
      ClientDoes resolve w k (.start q config acceptConflict heartbeatInterval retryTimes)
        ({ u with reg := { u.reg with built := record u.reg.built k links } }.setProc k
          ⟨⟨none, ⟨links, acceptConflict, heartbeatInterval, retryTimes⟩⟩, .sendNewClient, q⟩)
  | openTunnel (channel : Channel) (q : ConnId) (u : World) (hchannel : channel ∈ w.channels)
      (howner : channel.client = k) (hu : w.connect q ⟨k, some channel⟩ = some u) :
      ClientDoes resolve w k (.openTunnel channel q)
        ({ u with channels := u.channels.erase channel }.sendUp q
          (.acceptChannel channel.id channel.port channel.number))
  | dropChannel (channel : Channel) :
      ClientDoes resolve w k (.dropChannel channel)
        { w with channels := w.channels.erase channel }
  | proc (a : ClientAct) (pr : ClientProc) (w' : World) (hpr : w.procs k = some pr)
      (hw : w.procStep k pr a = some w') : ClientDoes resolve w k a w'

theorem clientStep_does {resolve : String → Option CacheAddr} {w w' : World} {k : ClientId}
    {a : ClientAct} (h : w.clientStep resolve k a = some w') : ClientDoes resolve w k a w' := by
  cases a with
  | start q config acceptConflict heartbeatInterval retryTimes =>
      simp only [clientStep] at h
      split at h
      · case h_1 links hbuilt hlinks =>
          obtain ⟨u, hu, rfl⟩ := Option.map_eq_some_iff.mp h
          exact .start q config _ _ _ links u hbuilt hlinks hu
      · cases h
  | openTunnel channel q =>
      obtain ⟨⟨hchannel, howner⟩, h⟩ := Option.ite_none_right_eq_some.mp h
      obtain ⟨u, hu, rfl⟩ := Option.map_eq_some_iff.mp h
      exact .openTunnel channel q u hchannel howner hu
  | dropChannel channel =>
      cases h
      exact .dropChannel channel
  | write | read | reconnect =>
      obtain ⟨pr, hpr, hw⟩ := Option.bind_eq_some_iff.mp h
      exact .proc _ pr w' hpr hw

end World

end Rslinker
