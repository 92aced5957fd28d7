import Rslinker.Basic.Transition
import Rslinker.Server.Ports
import Rslinker.Udp.Server
import Rslinker.Utils.Chat
import Mathlib.Data.List.AList

set_option autoImplicit false

/-! # Monitors

`start_monitors` hires a monitor for every port of the controller and starts it as a task. The task
binds a socket and reports every connection it accepts; it ends when its controller has sent it a
message or dropped its sender, and when something fails. A TCP monitor reports an error before it
ends. A UDP monitor does not: a failing `bind` is returned to nobody, and `accept` panics when the
receive task is gone.

The socket of a TCP monitor is closed when its task ends. The socket of a UDP monitor is shared with
the receive task and with all sessions, and is closed when the last of them is gone.
-/

namespace Rslinker

inductive MonitorReport
  | newTcp
  | newUdp (session : Nat)
  | error
  deriving DecidableEq, Repr

/-- The leader of the monitors of a controller. A monitor is hired once, under its port. -/
abbrev MonitorLeader := Chat.Leader Unit MonitorReport Port Port

/-- Somebody holds the socket of a UDP port. -/
def UdpServer.holdsSocket (u : UdpServer) : Bool :=
  u.receiver = .running || u.clients.any (fun c => !c.dropped)

namespace Watch

inductive Task
  /-- It has been spawned and has not yet bound its socket. -/
  | starting
  /-- It is in its `select!`. -/
  | serving
  | ended
  deriving DecidableEq, Repr

end Watch

structure Watch where
  task : Watch.Task
  udp : Option UdpServer

namespace Watch

def spawn : Watch := ⟨.starting, none⟩

/-- A task or a session of this monitor holds the socket of its port. -/
def holdsSocket (w : Watch) : Bool :=
  match w.udp with
  | none => w.task = .serving
  | some u => u.holdsSocket

inductive Act
  /-- `bind` returns. -/
  | bind (ok : Bool)
  /-- `accept` returns. -/
  | accept
  /-- The `accept` of a TCP listener fails. -/
  | acceptError
  /-- `employee.wait()` returns. -/
  | stop
  /-- The receive task, a session or a removal task of the UDP port. -/
  | udp (a : UdpServer.Act)
  deriving DecidableEq, Repr

/-- `self.employee.report(msg)?`: the reports of a dropped leader fail. -/
def report (leader : Option MonitorLeader) (p : Port) (msg : MonitorReport) : Option MonitorLeader :=
  leader.map (·.report p msg)

/-- The task ends, and its employee is dropped. -/
def leave (leader : Option MonitorLeader) (p : Port) : Option MonitorLeader :=
  leader.map (·.dropEmployee p)

/-- `self.employee.wait()` is ready, with a message or because there is no sender any more. -/
def Stopped (leader : Option MonitorLeader) (p : Port) : Prop := ∀ l ∈ leader, l.wait p ≠ .pending

instance (leader : Option MonitorLeader) (p : Port) : Decidable (Stopped leader p) :=
  inferInstanceAs (Decidable (∀ l ∈ leader, l.wait p ≠ .pending))

def signal (u : UdpServer) : UdpServer := { u with owner := .signalled }

/-- A step of the monitor of `p`. `leader` is the leader of its controller, `none` when it has been
dropped, and `free` tells that nobody holds a socket of `p`. -/
def step (leader : Option MonitorLeader) (free : Bool) (p : Port) (w : Watch) :
    Act → Option (Watch × Option MonitorLeader)
  | .bind ok =>
      if w.task = .starting then
        match p.protocol, ok with
        | .tcp, true => if free then some (⟨.serving, none⟩, leader) else none
        | .udp, true => if free then some (⟨.serving, some .bind⟩, leader) else none
        | .tcp, false => some (⟨.ended, none⟩, leave (report leader p .error) p)
        | .udp, false => some (⟨.ended, none⟩, leave leader p)
      else none
  | .accept =>
      if w.task = .serving then
        match w.udp with
        | none =>
            if leader.isSome then some (w, report leader p .newTcp)
            else some (⟨.ended, none⟩, none)
        | some u =>
            (u.step .accept).map fun u' =>
              let session := u.handed.getD u.accepted 0
              -- `accept` panics when the receive task is gone
              if u'.owner ≠ .alive then (⟨.ended, some u'⟩, leave leader p)
              else if leader.isSome then (⟨.serving, some u'⟩, report leader p (.newUdp session))
              else (⟨.ended, some ((signal u').dropClient session)⟩, none)
      else none
  | .acceptError =>
      if w.task = .serving ∧ w.udp.isNone then
        some (⟨.ended, none⟩, leave (report leader p .error) p)
      else none
  | .stop =>
      if w.task = .serving ∧ Stopped leader p then
        some (⟨.ended, w.udp.map signal⟩, leave leader p)
      else none
  | .udp a =>
      match w.udp with
      | some u =>
          if a = .accept ∨ a = .signal then none
          else (u.step a).map fun u' => (⟨w.task, some u'⟩, leader)
      | none => none

/-- The steps of a monitor, one constructor for each way it goes on. -/
inductive Step (leader : Option MonitorLeader) (free : Bool) (p : Port) (w : Watch) :
    Act → Watch × Option MonitorLeader → Prop
  | tcpBound (htask : w.task = .starting) (hp : p.protocol = .tcp) (hfree : free = true) :
      Step leader free p w (.bind true) (⟨.serving, none⟩, leader)
  | udpBound (htask : w.task = .starting) (hp : p.protocol = .udp) (hfree : free = true) :
      Step leader free p w (.bind true) (⟨.serving, some .bind⟩, leader)
  | tcpUnbound (htask : w.task = .starting) (hp : p.protocol = .tcp) :
      Step leader free p w (.bind false) (⟨.ended, none⟩, leave (report leader p .error) p)
  | udpUnbound (htask : w.task = .starting) (hp : p.protocol = .udp) :
      Step leader free p w (.bind false) (⟨.ended, none⟩, leave leader p)
  | tcpAccepted (htask : w.task = .serving) (hudp : w.udp = none) (hleader : leader.isSome) :
      Step leader free p w .accept (w, report leader p .newTcp)
  | tcpUnheard (htask : w.task = .serving) (hudp : w.udp = none) (hleader : leader = none) :
      Step leader free p w .accept (⟨.ended, none⟩, none)
  | udpAccepted (u u' : UdpServer) (htask : w.task = .serving) (hudp : w.udp = some u)
      (hstep : u.step .accept = some u') (hlt : u.accepted < u.handed.length)
      (hleader : leader.isSome) :
      Step leader free p w .accept
        (⟨.serving, some u'⟩, report leader p (.newUdp (u.handed.getD u.accepted 0)))
  | udpUnheard (u u' : UdpServer) (htask : w.task = .serving) (hudp : w.udp = some u)
      (hstep : u.step .accept = some u') (hlt : u.accepted < u.handed.length)
      (hleader : leader = none) :
      Step leader free p w .accept
        (⟨.ended, some ((signal u').dropClient (u.handed.getD u.accepted 0))⟩, none)
  | udpPanic (u u' : UdpServer) (htask : w.task = .serving) (hudp : w.udp = some u)
      (hstep : u.step .accept = some u') (hle : u.handed.length ≤ u.accepted)
      (hreceiver : u.receiver ≠ .running) :
      Step leader free p w .accept (⟨.ended, some u'⟩, leave leader p)
  | acceptError (htask : w.task = .serving) (hudp : w.udp = none) :
      Step leader free p w .acceptError (⟨.ended, none⟩, leave (report leader p .error) p)
  | stop (htask : w.task = .serving) (hstopped : Stopped leader p) :
      Step leader free p w .stop (⟨.ended, w.udp.map signal⟩, leave leader p)
  | udp (b : UdpServer.Act) (u u' : UdpServer) (hudp : w.udp = some u)
      (hstep : u.step b = some u') : Step leader free p w (.udp b) (⟨w.task, some u'⟩, leader)

/-- `accept` returns a session, or it panics. -/
theorem accept_cases {u u' : UdpServer} (h : u.step .accept = some u') :
    (u.accepted < u.handed.length ∧ u'.owner = .alive) ∨
      (u.handed.length ≤ u.accepted ∧ u.receiver ≠ .running ∧ u'.owner = .signalled) := by
  obtain ⟨halive, h⟩ := Option.ite_none_right_eq_some.mp h
  by_cases hlt : u.accepted < u.handed.length
  · rw [if_pos hlt] at h
    cases h
    exact Or.inl ⟨hlt, halive⟩
  · rw [if_neg hlt] at h
    obtain ⟨hreceiver, h⟩ := Option.ite_none_left_eq_some.mp h
    cases h
    exact Or.inr ⟨not_lt.mp hlt, hreceiver, rfl⟩

/-- **Every step of a monitor is one of these.** -/
theorem step_rel {leader : Option MonitorLeader} {free : Bool} {p : Port} {w : Watch}
    {r : Watch × Option MonitorLeader} {a : Act} (h : w.step leader free p a = some r) :
    Step leader free p w a r := by
  cases a with
  | bind ok =>
      obtain ⟨htask, h⟩ := Option.ite_none_right_eq_some.mp h
      split at h
      · obtain ⟨hfree, h⟩ := Option.ite_none_right_eq_some.mp h
        cases h
        exact .tcpBound htask ‹_› hfree
      · obtain ⟨hfree, h⟩ := Option.ite_none_right_eq_some.mp h
        cases h
        exact .udpBound htask ‹_› hfree
      · cases h
        exact .tcpUnbound htask ‹_›
      · cases h
        exact .udpUnbound htask ‹_›
  | accept =>
      obtain ⟨htask, h⟩ := Option.ite_none_right_eq_some.mp h
      split at h
      · rename_i hudp
        rcases leader with _ | l
        · cases h
          exact .tcpUnheard htask hudp rfl
        · cases h
          exact .tcpAccepted htask hudp rfl
      · rename_i u hudp
        obtain ⟨u', hstep, h⟩ := Option.map_eq_some_iff.mp h
        rcases accept_cases hstep with ⟨hlt, howner⟩ | ⟨hle, hreceiver, howner⟩
        · simp only [howner, ne_eq, not_true_eq_false, if_false] at h
          rcases leader with _ | l
          · cases h
            exact .udpUnheard u u' htask hudp hstep hlt rfl
          · cases h
            exact .udpAccepted u u' htask hudp hstep hlt rfl
        · simp only [howner, ne_eq, reduceCtorEq, not_false_eq_true, if_true] at h
          cases h
          exact .udpPanic u u' htask hudp hstep hle hreceiver
  | acceptError =>
      obtain ⟨⟨htask, hudp⟩, h⟩ := Option.ite_none_right_eq_some.mp h
      cases h
      exact .acceptError htask (Option.isNone_iff_eq_none.mp hudp)
  | stop =>
      obtain ⟨⟨htask, hstopped⟩, h⟩ := Option.ite_none_right_eq_some.mp h
      cases h
      exact .stop htask hstopped
  | udp b =>
      rcases hudp : w.udp with _ | u
      · simp [step, hudp] at h
      · simp only [step, hudp] at h
        obtain ⟨-, h⟩ := Option.ite_none_left_eq_some.mp h
        obtain ⟨u', hstep, h⟩ := Option.map_eq_some_iff.mp h
        cases h
        exact .udp b u u' hudp hstep

end Watch

/-- The controllers, the leaders of their monitors, and the monitors. -/
structure MonitorSystem where
  server : PortSystem
  leader : ControllerId → Option MonitorLeader
  watch : AList (fun _ : ControllerId × Port => Watch)
  /-- The unwrap in `Leader::fired` has failed. -/
  panicked : Bool

namespace MonitorSystem

open Controller PortSystem

inductive Act
  /-- A step of a controller other than the handling of a report. -/
  | control (a : PortSystem.Act)
  /-- `main_loop` receives a report and runs `new_channel`. -/
  | handle (c : ControllerId) (written : Bool)
  | monitor (c : ControllerId) (p : Port) (a : Watch.Act)
  deriving DecidableEq, Repr

def init : MonitorSystem := ⟨.init, fun _ => none, ∅, false⟩

def setLeader (s : MonitorSystem) (c : ControllerId) (leader : Option MonitorLeader) :
    MonitorSystem :=
  { s with leader := Function.update s.leader c leader }

/-- The body of the loop of `start_monitors`. -/
def startMonitor (c : ControllerId) (s : MonitorSystem) (p : Port) : MonitorSystem :=
  { s.setLeader c ((s.leader c).map (·.hire p p)) with watch := s.watch.insert (c, p) .spawn }

/-- The ports that `start_monitors` goes through after the reply; a `HashSet` has no order. -/
def granted (s : PortSystem) (c : ControllerId) : List Port :=
  match s.controllers c with
  | some ctl =>
      match ctl.phase with
      | .replying _ success => success
      | _ => []
  | none => []

/-- What a controller does to its monitors in a step after which the controllers are `server`. -/
def follow (s : MonitorSystem) (server : PortSystem) : PortSystem.Act → MonitorSystem
  | .fromServer c => { s.setLeader c (some .new) with server := server }
  | .reply c true => (granted s.server c).foldl (startMonitor c) { s with server := server }
  -- the controller is dropped, and its leader with it
  | .cleanup c => { s.setLeader c none with server := server }
  | a =>
      if HasResult server a.actor then
        { s.setLeader a.actor ((s.leader a.actor).map fun l => (l.broadcast ()).1) with
          server := server }
      else { s with server := server }

/-- A step of a controller. -/
def control (s : MonitorSystem) (a : PortSystem.Act) : Option MonitorSystem :=
  (s.server.step a).map fun server => s.follow server a

def newChannel (s : MonitorSystem) (c : ControllerId) (port : Port) (written : Bool) :
    MonitorReport → Option MonitorSystem
  | .newTcp | .newUdp _ => s.control (.mainLoop c (.newChannel port written))
  | .error =>
      match (s.leader c).bind (·.fired port) with
      | some l => (s.setLeader c (some l)).control (.mainLoop c (.monitorError port))
      | none => some { s with panicked := true }

/-- The controller is in its `main_loop`. -/
def Looping (s : PortSystem) (c : ControllerId) : Prop :=
  (s.controllers c).any (fun ctl => ctl.phase = .looping)

instance (s : PortSystem) (c : ControllerId) : Decidable (Looping s c) :=
  inferInstanceAs (Decidable (_ = true))

/-- Nobody holds a socket of `p`. -/
def free (s : MonitorSystem) (p : Port) : Bool :=
  s.watch.entries.all fun e => e.1.2 ≠ p || !e.2.holdsSocket

/-- The event is the handling of a report, which `handle` stands for. -/
def ofReport : PortSystem.Act → Bool
  | .mainLoop _ (.newChannel _ _) | .mainLoop _ (.monitorError _) => true
  | _ => false

def step (s : MonitorSystem) : Act → Option MonitorSystem
  | .control a => if ofReport a then none else s.control a
  | .handle c written =>
      if Looping s.server c then
        match (s.leader c).bind (·.receive) with
        | some (r, l) => (s.setLeader c (some l)).newChannel c r.1 written r.2
        | none => none
      else none
  | .monitor c p a =>
      match s.watch.lookup (c, p) with
      | some w =>
          (w.step (s.leader c) (s.free p) p a).map fun r =>
            { s.setLeader c r.2 with watch := s.watch.insert (c, p) r.1 }
      | none => none

/-! ## What a step of a controller does to its monitors

Most steps of a controller do nothing to its monitors. The reply of `accept_config` starts all of
them; a report takes one element off the queue of the leader, and an error then removes a sender;
`cleanup` sends a message to all of them; and the end of the controller drops the leader. The
lemmas single out these cases, so that invariants need not go through the phases of the controller
again. -/

section Control

variable {s t : MonitorSystem} {c d : ControllerId} {p : Port}

@[simp] theorem setLeader_server (s : MonitorSystem) (c : ControllerId)
    (leader : Option MonitorLeader) : (s.setLeader c leader).server = s.server := rfl

@[simp] theorem setLeader_watch (s : MonitorSystem) (c : ControllerId)
    (leader : Option MonitorLeader) : (s.setLeader c leader).watch = s.watch := rfl

@[simp] theorem setLeader_leader_self (s : MonitorSystem) (c : ControllerId)
    (leader : Option MonitorLeader) : (s.setLeader c leader).leader c = leader := by
  simp [setLeader]

theorem setLeader_leader_of_ne (s : MonitorSystem) (leader : Option MonitorLeader) (h : d ≠ c) :
    (s.setLeader c leader).leader d = s.leader d := by
  simp [setLeader, h]

/-- The other monitors of a controller. -/
theorem lookup_insert_of_ne (watch : AList fun _ : ControllerId × Port => Watch) (w : Watch)
    {q : Port} (h : q ≠ p) : (watch.insert (c, p) w).lookup (c, q) = watch.lookup (c, q) :=
  AList.lookup_insert_ne fun hpair => h (congrArg Prod.snd hpair)

/-- The monitor that has changed, or another one. -/
theorem lookup_insert_cases {watch : AList fun _ : ControllerId × Port => Watch} {w w' : Watch}
    {q : Port} (h : (watch.insert (c, p) w).lookup (c, q) = some w') :
    (q = p ∧ w' = w) ∨ (q ≠ p ∧ watch.lookup (c, q) = some w') := by
  by_cases hq : q = p
  · subst hq
    rw [AList.lookup_insert] at h
    cases h
    exact Or.inl ⟨rfl, rfl⟩
  · rw [lookup_insert_of_ne watch w hq] at h
    exact Or.inr ⟨hq, h⟩

/-- The monitors that there are stay the same when one of them changes. -/
theorem exists_lookup_insert {watch : AList fun _ : ControllerId × Port => Watch} {w : Watch}
    (hw : watch.lookup (c, p) = some w) (w' : Watch) (q : Port) :
    (∃ v, (watch.insert (c, p) w').lookup (c, q) = some v) ↔ ∃ v, watch.lookup (c, q) = some v := by
  by_cases hq : q = p
  · subst hq
    exact iff_of_true ⟨w', AList.lookup_insert _⟩ ⟨w, hw⟩
  · rw [lookup_insert_of_ne watch w' hq]

theorem foldl_startMonitor (c : ControllerId) (ports : List Port) (s : MonitorSystem) :
    (ports.foldl (startMonitor c) s).server = s.server ∧
      (∀ d p, (ports.foldl (startMonitor c) s).watch.lookup (d, p)
        = if d = c ∧ p ∈ ports then some .spawn else s.watch.lookup (d, p)) ∧
      (ports.foldl (startMonitor c) s).leader = Function.update s.leader c
        ((s.leader c).map fun l => ports.foldl (fun l p => l.hire p p) l) := by
  induction ports generalizing s with
  | nil => simp
  | cons q ports ih =>
      obtain ⟨hserver, hwatch, hleader⟩ := ih (startMonitor c s q)
      refine ⟨hserver, ?_, ?_⟩
      · intro d p
        rw [List.foldl_cons, hwatch]
        by_cases hmem : d = c ∧ p ∈ ports
        · simp [hmem]
        · by_cases hq : (d, p) = (c, q)
          · cases hq
            simp [startMonitor]
          · have hne : ¬ (d = c ∧ p ∈ q :: ports) := by
              rintro ⟨rfl, hp⟩
              rcases List.mem_cons.mp hp with rfl | hp
              · exact hq rfl
              · exact hmem ⟨rfl, hp⟩
            simp only [hmem, hne, if_false, startMonitor]
            exact AList.lookup_insert_ne hq
      · rw [List.foldl_cons, hleader]
        funext d
        by_cases hd : d = c
        · subst hd
          simp [startMonitor, Option.map_map, Function.comp_def]
        · simp [startMonitor, setLeader, hd]

theorem control_eq {a : PortSystem.Act} (h : s.control a = some t) :
    s.server.step a = some t.server ∧ t = s.follow t.server a := by
  obtain ⟨server, hserver, rfl⟩ := Option.map_eq_some_iff.mp h
  have hfollow : (s.follow server a).server = server := by
    unfold follow
    split
    · rfl
    · rw [(foldl_startMonitor _ _ _).1]
    · rfl
    · split
      · rfl
      · rfl
  rw [hfollow]
  exact ⟨hserver, rfl⟩

/-- The monitors start after the reply. -/
theorem follow_watch (s : MonitorSystem) (server : PortSystem) (a : PortSystem.Act)
    (d : ControllerId) (p : Port) :
    (s.follow server a).watch.lookup (d, p)
      = if a = .reply d true ∧ p ∈ granted s.server d then some .spawn
        else s.watch.lookup (d, p) := by
  unfold follow
  split
  · simp
  · rename_i c
    rw [(foldl_startMonitor _ _ _).2.1]
    by_cases hd : d = c
    · subst hd
      simp
    · simp [hd, Ne.symm hd]
  · simp
  · rename_i hreply _
    have hne : ¬ (a = .reply d true ∧ p ∈ granted s.server d) := fun hr => hreply d hr.1
    rw [if_neg hne]
    split
    · rfl
    · rfl

/-- The cases of a step. -/
theorem step_cases {a : Act} (h : s.step a = some t) :
    (∃ b, a = .control b ∧ s.control b = some t) ∨
    (∃ c written l l' r, a = .handle c written ∧ Looping s.server c ∧ s.leader c = some l ∧
      l.receive = some (r, l') ∧ (s.setLeader c (some l')).newChannel c r.1 written r.2 = some t) ∨
    (∃ c p b w r, a = .monitor c p b ∧ s.watch.lookup (c, p) = some w ∧
      w.step (s.leader c) (s.free p) p b = some r ∧
      t = { s.setLeader c r.2 with watch := s.watch.insert (c, p) r.1 }) := by
  cases a with
  | control b =>
      obtain ⟨-, h⟩ := Option.ite_none_left_eq_some.mp h
      exact Or.inl ⟨b, rfl, h⟩
  | handle c written =>
      obtain ⟨hlooping, h⟩ := Option.ite_none_right_eq_some.mp h
      rcases hl : s.leader c with _ | l
      · simp [hl] at h
      · rcases hr : l.receive with _ | ⟨r, l'⟩
        · simp [hl, hr] at h
        · simp only [hl, Option.bind_some, hr] at h
          exact Or.inr (Or.inl ⟨c, written, l, l', r, rfl, hlooping, hl, hr, h⟩)
  | monitor c p b =>
      rcases hw : s.watch.lookup (c, p) with _ | w
      · simp [step, hw] at h
      · simp only [step, hw] at h
        obtain ⟨r, hr, h⟩ := Option.map_eq_some_iff.mp h
        exact Or.inr (Or.inr ⟨c, p, b, w, r, rfl, hw, hr, h.symm⟩)

/-- `new_channel` lets the controller go on, or its unwrap fails. -/
theorem newChannel_cases {written : Bool} {msg : MonitorReport}
    (h : s.newChannel c p written msg = some t) :
    (msg ≠ .error ∧ s.control (.mainLoop c (.newChannel p written)) = some t) ∨
    (∃ l l', msg = .error ∧ s.leader c = some l ∧ l.fired p = some l' ∧
      (s.setLeader c (some l')).control (.mainLoop c (.monitorError p)) = some t) ∨
    (msg = .error ∧ t = { s with panicked := true }) := by
  cases msg with
  | newTcp => exact Or.inl ⟨by simp, h⟩
  | newUdp session => exact Or.inl ⟨by simp, h⟩
  | error =>
      rcases hl : s.leader c with _ | l
      · simp only [newChannel, hl, Option.bind_none] at h
        cases h
        exact Or.inr (Or.inr ⟨rfl, rfl⟩)
      · rcases hf : l.fired p with _ | l'
        · simp only [newChannel, hl, Option.bind_some, hf] at h
          cases h
          exact Or.inr (Or.inr ⟨rfl, rfl⟩)
        · simp only [newChannel, hl, Option.bind_some, hf] at h
          exact Or.inr (Or.inl ⟨l, l', rfl, rfl, hf, h⟩)

/-- The unwrap of `fired` succeeds for a port that is registered. -/
theorem newChannel_error {l : MonitorLeader} (hl : s.leader c = some l) (hp : p ∈ l.senders)
    (written : Bool) : ∃ l', l.fired p = some l' ∧ s.newChannel c p written .error
      = (s.setLeader c (some l')).control (.mainLoop c (.monitorError p)) := by
  have hfired : l.fired p = some { l with senders := l.senders.erase p } := if_pos hp
  refine ⟨_, hfired, ?_⟩
  simp only [newChannel, hl, Option.bind_some, hfired]

theorem control_panicked {a : PortSystem.Act} (h : s.control a = some t)
    (hreply : ∀ d, a ≠ .reply d true) : t.panicked = s.panicked := by
  obtain ⟨-, heq⟩ := control_eq h
  rw [heq]
  unfold follow
  split
  · rfl
  · exact absurd rfl (hreply _)
  · rfl
  · split
    · rfl
    · rfl

/-- A controller changes its own leader only. -/
theorem follow_leader_of_ne (s : MonitorSystem) (server : PortSystem) {a : PortSystem.Act}
    (hd : d ≠ a.actor) : (s.follow server a).leader d = s.leader d := by
  unfold follow
  split
  · exact Function.update_of_ne hd _ _
  · rw [(foldl_startMonitor _ _ _).2.2]
    exact Function.update_of_ne hd _ _
  · exact Function.update_of_ne hd _ _
  · split
    · exact Function.update_of_ne hd _ _
    · rfl

/-- A controller that goes on leaves its leader as it is, unless it starts or gets its ports. -/
theorem follow_leader_same (s : MonitorSystem) {server : PortSystem} {a : PortSystem.Act}
    (hnew : ∀ c, a ≠ .fromServer c) (hreply : ∀ c, a ≠ .reply c true)
    (hresult : ¬ HasResult server a.actor) (hclean : ∀ c, a ≠ .cleanup c) :
    (s.follow server a).leader = s.leader := by
  unfold follow
  split
  · exact absurd rfl (hnew _)
  · exact absurd rfl (hreply _)
  · exact absurd rfl (hclean _)
  · rw [if_neg hresult]

/-- What becomes of the leader of a controller that does not start its monitors. -/
theorem follow_leader_cases (s : MonitorSystem) (server : PortSystem) {a : PortSystem.Act}
    (hreply : ∀ c, a ≠ .reply c true) :
    ((∃ c, a = .fromServer c) ∧ (s.follow server a).leader a.actor = some .new) ∨
      (s.follow server a).leader a.actor = none ∨
      (s.follow server a).leader a.actor = s.leader a.actor ∨
      (s.follow server a).leader a.actor
        = (s.leader a.actor).map fun l => (l.broadcast ()).1 := by
  unfold follow
  split
  · exact Or.inl ⟨⟨_, rfl⟩, setLeader_leader_self _ _ _⟩
  · exact absurd rfl (hreply _)
  · exact Or.inr (Or.inl (setLeader_leader_self _ _ _))
  · split
    · exact Or.inr (Or.inr (Or.inr (setLeader_leader_self _ _ _)))
    · exact Or.inr (Or.inr (Or.inl rfl))

/-- All monitors of a port are hired under it. -/
theorem foldl_hire (ports : List Port) (l : MonitorLeader) :
    (∀ q, (ports.foldl (fun l p => l.hire p p) l).senders.lookup q
        = if q ∈ ports then some q else l.senders.lookup q) ∧
      (∀ q, (ports.foldl (fun l p => l.hire p p) l).employees q
        = if q ∈ ports then some ⟨q, [], false⟩ else l.employees q) ∧
      (ports.foldl (fun l p => l.hire p p) l).reports = l.reports := by
  induction ports generalizing l with
  | nil => simp
  | cons p ports ih =>
      obtain ⟨hsenders, hemployees, hreports⟩ := ih (l.hire p p)
      refine ⟨fun q => ?_, fun q => ?_, hreports⟩
      · rw [List.foldl_cons, hsenders]
        by_cases hq : q ∈ ports
        · simp [hq]
        · by_cases hqp : q = p
          · subst hqp
            simp [hq, Chat.Leader.hire]
          · have hold : (l.hire p p).senders.lookup q = l.senders.lookup q :=
              AList.lookup_insert_ne hqp
            simp [hq, hqp, hold]
      · rw [List.foldl_cons, hemployees]
        by_cases hq : q ∈ ports
        · simp [hq]
        · by_cases hqp : q = p
          · subst hqp
            simp [hq, Chat.Leader.hire_employees_self]
          · simp [hq, hqp, Chat.Leader.hire_employees_of_ne l p hqp]

end Control

end MonitorSystem

end Rslinker
