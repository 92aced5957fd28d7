import Rslinker.System.World

set_option autoImplicit false

/-! # The steps of the server and of the world outside

`on_new_connection` routes the first message of a connection, a controller exchanges messages with
its client and with its monitors, and the tasks it has spawned claim pending sockets. The steps of
a controller are those of `Server/Ports.lean`, together with what they read and write.

Each function is the model of one function of the source, or of the part of it between two awaits,
under its name. What it reads from a connection it takes off the queue, and what it writes goes to
the end of the other one.
-/

namespace Rslinker.World

open Controller

/-! ## `Server::on_new_connection`

The task of a new connection reads one message and hands the socket on. A connection that has been
served is not looked at again; an unknown id or a message that is not meant for this place drops
the socket. -/

inductive ServerAct
  /-- The first message of the connection `q` is read; a new controller gets the id `fresh`. -/
  | onNewConnection (q : ConnId) (fresh : ControllerId)
  /-- The first message cannot be read. -/
  | dropConnection (q : ConnId)

def serve (w : World) (q : ConnId) : World := { w with served := Function.update w.served q true }

/-- `controller_leader.send_to(&from, msg)`; without a live controller the socket is dropped. -/
def sendTo (w : World) (c : ControllerId) (msg : NewSocket) : World :=
  match w.server.controllers c with
  | some ctl =>
      if ctl.phase = .finished then w
      else { w with mailbox := Function.update w.mailbox c (w.mailbox c ++ [msg]) }
  | none => w

/-- `Controller::from_server` with the socket `q`. -/
def newController (w : World) (c : ControllerId) (q : ConnId) : Option World :=
  if w.reg.sessions c = none then
    (w.server.step (.fromServer c)).map fun server =>
      { w with server := server
               reg := { w.reg with sessions := record w.reg.sessions c q } }
  else none

def serverStep (w : World) : ServerAct → Option World
  | .onNewConnection q fresh =>
      if (w.reg.conns q).isSome ∧ w.served q = false then
        match w.up q with
        | [] => none
        | .newClient :: _ => ((w.dropUp q).serve q).newController fresh q
        | .acceptChannel from_ port number :: _ =>
            some (((w.dropUp q).serve q).sendTo from_ ⟨port, number, q⟩)
        | _ :: _ => some ((w.dropUp q).serve q)
      else none
  | .dropConnection q => some (w.serve q)

/-! ## A controller

The steps of `exec` are those of the port system; what is new is the other end of its reads and
writes. A read takes the first message of the queue of its connection, or fails; a write adds one,
or fails, with the message delivered or not. -/

inductive ControllerAct
  | acceptClient (result : Write)
  | recvConfig (received : Bool)
  | reserve
  | reply (result : Write)
  /-- `main_loop` reads a message of the client. -/
  | recvMsg
  /-- The read of `main_loop` ends in another way: with an error, a timeout, an empty message, or
  bytes that cannot be decoded. -/
  | readFails (event : LoopEvent)
  /-- `new_channel` on the first report; it draws `number` if the report brings a socket. -/
  | newChannel (number : Nat) (result : Write)
  /-- `server_msg` on the first message of the mailbox. -/
  | serverMsg
  | cleanup

/-- A step of the controllers, in the world. -/
def withServer (w : World) (a : PortSystem.Act) : Option World :=
  (w.server.step a).map fun server => { w with server := server }

def sendIf (w : World) (delivered : Bool) (q : ConnId) (msg : Server.JsonMessage) : World :=
  if delivered then w.sendDown q msg else w

/-- `add_pending_socket` with a number that has just been drawn. -/
def addPending (w : World) (c : ControllerId) (number : Nat) (port : Port) (socket : LocalSocket) :
    World :=
  { w with
    pending := Function.update w.pending c
      (record (w.pending c) number ⟨socket, port.port⟩)
    reg := { w.reg with issued := record w.reg.issued number (c, port, socket) } }

/-- The steps of the controller `c` whose socket is `q`. -/
def sessionStep (w : World) (c : ControllerId) (q : ConnId) : ControllerAct → Option World
  | .acceptClient result =>
      (w.withServer (.acceptClient c result.written)).map fun w =>
        w.sendIf result.delivered q (.acceptClient c)
  | .recvConfig received =>
      if received then
        match w.up q with
        | msg :: _ => (w.dropUp q).withServer (.recvConfig c (some msg))
        | [] => none
      else w.withServer (.recvConfig c none)
  | .reserve => w.withServer (.reserve c)
  | .reply result =>
      match (w.server.controllers c).map Controller.phase with
      | some (.replying accepted _) =>
          (w.withServer (.reply c result.written)).map fun w =>
            w.sendIf result.delivered q (.acceptConfig accepted)
      | _ => none
  | .recvMsg =>
      match w.up q with
      | msg :: _ => (w.dropUp q).withServer (.mainLoop c (.message (some msg)))
      | [] => none
  | .readFails event =>
      match event with
      | .message none | .emptyMessage | .readError | .timeout => w.withServer (.mainLoop c event)
      | _ => none
  | .newChannel number result =>
      match w.reports c with
      | [] => none
      | (port, report) :: rest =>
          let w := { w with reports := Function.update w.reports c rest }
          match report.socket with
          | none => w.withServer (.mainLoop c (.monitorError port))
          | some socket =>
              if w.reg.issued number = none then
                (w.withServer (.mainLoop c (.newChannel port result.written))).map fun w =>
                  (w.addPending c number port socket).sendIf result.delivered q
                    (.newChannel port number)
              else none
  | .serverMsg =>
      match w.mailbox c with
      | [] => none
      | msg :: rest =>
          ({ w with
              mailbox := Function.update w.mailbox c rest
              tasks := w.tasks ++ [⟨c, msg.port.protocol, msg.port.port, msg.number, msg.socket⟩] } :
            World).withServer (.mainLoop c .newSocket)
  | .cleanup => w.withServer (.cleanup c)

/-- What the steps of a session do, one constructor for each way to go on. -/
inductive SessionDoes (w : World) (c : ControllerId) (q : ConnId) : ControllerAct → World → Prop
  | acceptClient (result : Write) (u : World)
      (hu : w.withServer (.acceptClient c result.written) = some u) :
      SessionDoes w c q (.acceptClient result) (u.sendIf result.delivered q (.acceptClient c))
  | recvConfig (msg : Client.JsonMessage) (rest : List Client.JsonMessage) (w' : World)
      (hup : w.up q = msg :: rest)
      (hw : (w.dropUp q).withServer (.recvConfig c (some msg)) = some w') :
      SessionDoes w c q (.recvConfig true) w'
  | recvFails (w' : World) (hw : w.withServer (.recvConfig c none) = some w') :
      SessionDoes w c q (.recvConfig false) w'
  | reserve (w' : World) (hw : w.withServer (.reserve c) = some w') :
      SessionDoes w c q .reserve w'
  | reply (accepted : Accepted) (success : List Port) (result : Write) (u : World)
      (hphase : (w.server.controllers c).map Controller.phase = some (.replying accepted success))
      (hu : w.withServer (.reply c result.written) = some u) :
      SessionDoes w c q (.reply result) (u.sendIf result.delivered q (.acceptConfig accepted))
  | recvMsg (msg : Client.JsonMessage) (rest : List Client.JsonMessage) (w' : World)
      (hup : w.up q = msg :: rest)
      (hw : (w.dropUp q).withServer (.mainLoop c (.message (some msg))) = some w') :
      SessionDoes w c q .recvMsg w'
  | readFails (event : LoopEvent) (w' : World)
      (hw : w.withServer (.mainLoop c event) = some w') : SessionDoes w c q (.readFails event) w'
  | monitorError (number : Nat) (result : Write) (port : Port) (report : Report)
      (rest : List (Port × Report)) (w' : World) (hreports : w.reports c = (port, report) :: rest)
      (hw : ({ w with reports := Function.update w.reports c rest } : World).withServer
        (.mainLoop c (.monitorError port)) = some w') :
      SessionDoes w c q (.newChannel number result) w'
  | newChannel (number : Nat) (result : Write) (port : Port) (report : Report)
      (rest : List (Port × Report)) (socket : LocalSocket) (u : World)
      (hreports : w.reports c = (port, report) :: rest) (hsocket : report.socket = some socket)
      (hfresh : w.reg.issued number = none)
      (hu : ({ w with reports := Function.update w.reports c rest } : World).withServer
        (.mainLoop c (.newChannel port result.written)) = some u) :
      SessionDoes w c q (.newChannel number result)
        ((u.addPending c number port socket).sendIf result.delivered q (.newChannel port number))
  | serverMsg (msg : NewSocket) (rest : List NewSocket) (w' : World)
      (hmailbox : w.mailbox c = msg :: rest)
      (hw : ({ w with
          mailbox := Function.update w.mailbox c rest
          tasks := w.tasks ++ [⟨c, msg.port.protocol, msg.port.port, msg.number, msg.socket⟩] } :
        World).withServer (.mainLoop c .newSocket) = some w') :
      SessionDoes w c q .serverMsg w'
  | cleanup (w' : World) (hw : w.withServer (.cleanup c) = some w') :
      SessionDoes w c q .cleanup w'

theorem sessionStep_does {w w' : World} {c : ControllerId} {q : ConnId} {a : ControllerAct}
    (h : w.sessionStep c q a = some w') : SessionDoes w c q a w' := by
  cases a with
  | acceptClient result =>
      obtain ⟨u, hu, rfl⟩ := Option.map_eq_some_iff.mp h
      exact .acceptClient result u hu
  | recvConfig received =>
      cases received with
      | false => exact .recvFails w' h
      | true =>
          simp only [sessionStep, if_true] at h
          split at h
          · case h_1 msg rest hup => exact .recvConfig msg rest w' hup h
          · cases h
  | reserve => exact .reserve w' h
  | reply result =>
      simp only [sessionStep] at h
      split at h
      · case h_1 accepted success hphase =>
          obtain ⟨u, hu, rfl⟩ := Option.map_eq_some_iff.mp h
          exact .reply accepted success result u hphase hu
      · cases h
  | recvMsg =>
      simp only [sessionStep] at h
      split at h
      · case h_1 msg rest hup => exact .recvMsg msg rest w' hup h
      · cases h
  | readFails event =>
      simp only [sessionStep] at h
      split at h
      all_goals first | exact .readFails _ w' h | cases h
  | newChannel number result =>
      simp only [sessionStep] at h
      split at h
      · cases h
      · case h_2 port report rest hreports =>
          split at h
          · exact .monitorError number result port report rest w' hreports h
          · case h_2 socket hsocket =>
              obtain ⟨hfresh, h⟩ := Option.ite_none_right_eq_some.mp h
              obtain ⟨u, hu, rfl⟩ := Option.map_eq_some_iff.mp h
              exact .newChannel number result port report rest socket u hreports hsocket hfresh hu
  | serverMsg =>
      simp only [sessionStep] at h
      split at h
      · cases h
      · case h_2 msg rest hmailbox => exact .serverMsg msg rest w' hmailbox h
  | cleanup => exact .cleanup w' h

def controllerStep (w : World) (c : ControllerId) (a : ControllerAct) : Option World :=
  (w.reg.sessions c).bind fun q => w.sessionStep c q a

/-! ## Monitors, timers and channel tasks

What comes from outside: an external connection is accepted by a monitor, time runs out for an
entry, and a spawned task gets the lock of the table. None of these happens at the request of the
controller. -/

inductive EnvAct
  /-- The monitor of the port `p` of the controller `c` accepts the external connection `x`. -/
  | accept (c : ControllerId) (p : Port) (x : ExtId)
  /-- A TCP monitor ends with an error. -/
  | monitorError (c : ControllerId) (p : Port)
  /-- The timer of `add_pending_socket`. -/
  | pendingTimeout (c : ControllerId) (number : Nat)
  /-- A task of `make_tcp_channel` or `make_udp_channel` gets the lock. -/
  | claim (task : ChannelTask)

/-- What a monitor reports of an accepted connection, with the id of its employee. -/
def reportOf (m : Monitor) (x : ExtId) : Port × Report :=
  match m with
  | .tcp _ employee => (employee, .newTcp x)
  | .udp _ employee => (employee, .newUdp x)

def report (w : World) (c : ControllerId) (msg : Port × Report) : World :=
  { w with reports := Function.update w.reports c (w.reports c ++ [msg]) }

/-- The body of the task: the pending socket with its number, if it has its port and protocol. -/
def claimPending (w : World) (t : ChannelTask) : World :=
  match w.pending t.controller t.number with
  | some s =>
      if s.port = t.port ∧ s.socket.protocol = t.protocol then
        { w with
          pending := Function.update w.pending t.controller
            (Function.update (w.pending t.controller) t.number none)
          joins := w.joins ++ [⟨t.controller, s.socket, t.socket⟩] }
      else w
  | none => w

/-- The controller `c` has a monitor for the port `p`. -/
def Monitors (w : World) (c : ControllerId) (p : Port) : Prop :=
  ∃ ctl, w.server.controllers c = some ctl ∧ monitorOf p ∈ ctl.monitors

instance (w : World) (c : ControllerId) (p : Port) : Decidable (w.Monitors c p) :=
  match h : w.server.controllers c with
  | none => isFalse (by simp [Monitors, h])
  | some ctl => decidable_of_iff (monitorOf p ∈ ctl.monitors) (by simp [Monitors, h])

def envStep (w : World) : EnvAct → Option World
  | .accept c p x =>
      if w.Monitors c p ∧ w.reg.accepted x = none then
        some ({ w with reg := { w.reg with accepted := record w.reg.accepted x (c, p) } }.report c
          (reportOf (monitorOf p) x))
      else none
  | .monitorError c p =>
      if w.Monitors c p ∧ p.protocol = .tcp then some (w.report c (p, .error)) else none
  | .pendingTimeout c number =>
      some { w with
        pending := Function.update w.pending c (Function.update (w.pending c) number none) }
  | .claim task =>
      if task ∈ w.tasks then some ({ w with tasks := w.tasks.erase task }.claimPending task)
      else none

/-! ## The system

The interleaving is that of the tasks: at any time any of them may take its next step, whatever the
others have been doing. Nothing is fair, so a task may also wait for ever. -/

inductive Act
  | client (k : ClientId) (a : ClientAct)
  | server (a : ServerAct)
  | controller (c : ControllerId) (a : ControllerAct)
  | env (a : EnvAct)

/-- One step of the system; `resolve` looks up the address of a link. -/
def step (resolve : String → Option CacheAddr) (w : World) : Act → Option World
  | .client k a => w.clientStep resolve k a
  | .server a => w.serverStep a
  | .controller c a => w.controllerStep c a
  | .env a => w.envStep a

end Rslinker.World
