import Rslinker.Server.Monitors

set_option autoImplicit false

/-! # Released ports

`cleanup` sends the monitors a message and then takes the ports out of `using_ports`. The monitors
close their sockets when they come to read that message, and the receive task and the sessions of a
UDP port later still, so a port can be free while a monitor of its last owner holds its socket; a
monitor that has not started yet even binds it then. Ports are really free as long as `cleanup` finds
that the sockets of its controller are closed, and no such monitor binds late.
-/

namespace Rslinker

namespace UdpServer

theorem holdsSocket_eq_false {u : UdpServer} :
    u.holdsSocket = false ↔ u.receiver ≠ .running ∧ ∀ c ∈ u.clients, c.dropped = true := by
  simp [holdsSocket]

/-- Sessions are only dropped. -/
theorem Settles.closed {u u' : UdpServer} (h : Settles u u')
    (hu : ∀ c ∈ u.clients, c.dropped = true) : ∀ c ∈ u'.clients, c.dropped = true := by
  intro c' hc'
  obtain ⟨i, hi⟩ := List.mem_iff_getElem?.mp hc'
  obtain ⟨c, hc, hlater⟩ := h.later i c' hi
  exact hlater.dropped (hu c (List.mem_iff_getElem?.mpr ⟨i, hc⟩))

/-- A socket that nobody holds stays closed. -/
theorem step_closed {u u' : UdpServer} {a : Act} (h : u.step a = some u')
    (hu : u.holdsSocket = false) : u'.holdsSocket = false := by
  obtain ⟨hreceiver, hclients⟩ := holdsSocket_eq_false.mp hu
  refine holdsSocket_eq_false.mpr ⟨fun hrun => hreceiver (running_of_step h hrun), ?_⟩
  rcases step_settles h with ⟨-, -, -, hrun, -⟩ | ⟨addr, -, rfl⟩ | ⟨-, hsettles, -⟩
  · exact absurd hrun hreceiver
  · exact hclients
  · exact hsettles.closed hclients

theorem dropClient_closed {u : UdpServer} (i : Nat) (hu : u.holdsSocket = false) :
    (u.dropClient i).holdsSocket = false := by
  obtain ⟨hreceiver, hclients⟩ := holdsSocket_eq_false.mp hu
  refine holdsSocket_eq_false.mpr ⟨by rwa [dropClient_receiver], ?_⟩
  exact (settles_dropClient u i).closed hclients

end UdpServer

namespace Watch

/-- **A monitor that holds no socket gets one only by binding it.** -/
theorem step_closed {leader : Option MonitorLeader} {free : Bool} {p : Port} {w : Watch}
    {r : Watch × Option MonitorLeader} {a : Act} (h : w.step leader free p a = some r)
    (ha : a ≠ .bind true) (hw : w.holdsSocket = false) : r.1.holdsSocket = false := by
  -- a UDP port that is bound
  have hudp : ∀ {u}, w.udp = some u → u.holdsSocket = false := by
    intro u hu
    simpa [holdsSocket, hu] using hw
  cases step_rel h with
  | tcpBound | udpBound => exact absurd rfl ha
  | tcpUnbound | udpUnbound | tcpUnheard | acceptError => rfl
  | tcpAccepted => exact hw
  | udpAccepted u u' _ hu hstep | udpPanic u u' _ hu hstep =>
      exact UdpServer.step_closed hstep (hudp hu)
  | udpUnheard u u' _ hu hstep =>
      have hu' : u'.holdsSocket = false := UdpServer.step_closed hstep (hudp hu)
      exact UdpServer.dropClient_closed _ hu'
  | stop htask =>
      rcases hu : w.udp with _ | u
      · rfl
      · have hclosed : u.holdsSocket = false := hudp hu
        exact hclosed
  | udp b u u' hu hstep => exact UdpServer.step_closed hstep (hudp hu)

end Watch

namespace MonitorSystem

open Controller PortSystem

def Finished (s : MonitorSystem) (c : ControllerId) : Prop :=
  ∃ ctl, s.server.controllers c = some ctl ∧ ctl.phase = .finished

/-- No task that a finished controller has started holds the socket of a port that is free, or of a
port whose monitor is about to bind it. -/
structure FreeIsFree (s : MonitorSystem) : Prop where
  released : ∀ c p w, s.Finished c → s.watch.lookup (c, p) = some w → p ∉ s.server.usingPorts →
    w.holdsSocket = false
  bindable : ∀ c d p w w', s.Finished c → s.watch.lookup (c, p) = some w → c ≠ d →
    s.watch.lookup (d, p) = some w' → w'.task = .starting → w.holdsSocket = false

/-- The sockets of a controller are closed when it releases its ports, and none is bound later. -/
def ClosesFirst (s : MonitorSystem) (a : Act) : Prop :=
  (∀ c p w, a = .control (.cleanup c) → s.watch.lookup (c, p) = some w → w.holdsSocket = false) ∧
    ∀ c p, a = .monitor c p (.bind true) → ¬ s.Finished c

/-- What finished controllers have started holds no socket. -/
def Closed (s : MonitorSystem) : Prop :=
  ∀ c p w, s.Finished c → s.watch.lookup (c, p) = some w → w.holdsSocket = false

theorem Closed.freeIsFree {s : MonitorSystem} (h : Closed s) : FreeIsFree s :=
  ⟨fun c p w hc hw _ => h c p w hc hw, fun c _ p w _ hc hw _ _ _ => h c p w hc hw⟩

/-- A controller that has finished after a step of a controller had finished before, or it has just
cleaned up. -/
theorem finished_of_control {s t : MonitorSystem} {a : PortSystem.Act} (h : s.control a = some t)
    {c : ControllerId} (hc : t.Finished c) : s.Finished c ∨ a = .cleanup c := by
  obtain ⟨hstep, -⟩ := control_eq h
  by_cases hactor : a.actor = c
  · subst hactor
    exact Or.inr ((finished_iff hstep).mp hc)
  · obtain ⟨ctl, hctl, hphase⟩ := hc
    rw [step_controllers_of_ne hstep hactor] at hctl
    exact Or.inl ⟨ctl, hctl, hphase⟩

/-- A step of a controller keeps the sockets closed, when its own are closed before it cleans up. -/
theorem control_closed {s t : MonitorSystem} {a : PortSystem.Act} (hs : Closed s)
    (hC : ∀ c p w, a = .cleanup c → s.watch.lookup (c, p) = some w → w.holdsSocket = false)
    (h : s.control a = some t) : Closed t := by
  intro c p w hc hw
  rw [(control_eq h).2, follow_watch] at hw
  split at hw
  · cases hw
    rfl
  · rcases finished_of_control h hc with hc | ha
    · exact hs c p w hc hw
    · exact hC c p w ha hw

/-- **A step keeps the sockets of finished controllers closed** when it meets the condition. -/
theorem step_closed {s t : MonitorSystem} {a : Act} (hs : Closed s) (hC : ClosesFirst s a)
    (h : s.step a = some t) : Closed t := by
  rcases step_cases h with ⟨b, rfl, hb⟩ | ⟨c, written, l, l', r, rfl, -, -, -, hnew⟩ |
    ⟨c, p, b, w, r, rfl, hw, hr, rfl⟩
  · refine control_closed hs (fun c p w hcleanup => hC.1 c p w ?_) hb
    rw [hcleanup]
  · -- a report is handled in `main_loop`, so nobody cleans up
    have hs' : Closed (s.setLeader c (some l')) := hs
    rcases newChannel_cases hnew with ⟨-, hmain⟩ | ⟨-, l'', -, -, -, hmain⟩ | ⟨-, rfl⟩
    · exact control_closed hs' (by simp) hmain
    · have hs'' : Closed ((s.setLeader c (some l')).setLeader c (some l'')) := hs
      exact control_closed hs'' (by simp) hmain
    · exact hs
  · intro d q w' hd hw'
    have hd' : s.Finished d := hd
    by_cases hdq : (d, q) = (c, p)
    · cases hdq
      rw [AList.lookup_insert] at hw'
      cases hw'
      refine Watch.step_closed hr ?_ (hs _ _ w hd' hw)
      rintro rfl
      exact hC.2 _ _ rfl hd'
    · rw [AList.lookup_insert_ne hdq] at hw'
      exact hs d q w' hd' hw'

/-- **A free port is really free**, whatever the monitors, the receive tasks and the sessions do and
in whatever order, in a run in which every controller's sockets are closed when it cleans up. -/
theorem freeIsFree_of_closesFirst {acts : List Act} (hC : StepsMeet step ClosesFirst init acts) :
    Throughout step FreeIsFree init acts := by
  have hinit : Closed init := by
    rintro c p w ⟨ctl, hctl, -⟩ _
    cases hctl
  exact (throughout_of_stepsMeet (fun _ _ _ hs hC h => step_closed hs hC h) hinit hC).imp
    fun _ hs => hs.freeIsFree

def served (port : Port) : List Act :=
  [.control (.fromServer 0), .control (.acceptClient 0 true),
    .control (.recvConfig 0 (some (.pushConfig [port] none))), .control (.reserve 0),
    .control (.reply 0 true)] ++ [.monitor 0 port (.bind true)]

/-- Its port is free while its monitor has not yet come to read the message that stops it. -/
theorem not_freeIsFree_cleanup : ¬ ∀ s : MonitorSystem, Reaches step init s → FreeIsFree s := by
  intro hall
  have hrun : ∃ s : MonitorSystem, run step init (served ⟨80, .tcp⟩ ++
        [.control (.mainLoop 0 .emptyMessage), .control (.cleanup 0)]) = some s ∧
      s.Finished 0 ∧ s.watch.lookup (0, ⟨80, .tcp⟩) = some ⟨.serving, none⟩ ∧
      s.server.usingPorts = ∅ :=
    ⟨_, rfl, ⟨_, rfl, rfl⟩, rfl, by decide⟩
  obtain ⟨s, hrun, hfinished, hwatch, hfree⟩ := hrun
  have hclosed := (hall s ⟨_, hrun⟩).released 0 _ _ hfinished hwatch (by simp [hfree])
  cases hclosed

/-- The rule for a monitor that is faster than the `cleanup` of its controller. -/
theorem freeIsFree_fastMonitor : Throughout step FreeIsFree init (served ⟨80, .tcp⟩ ++
    [.control (.mainLoop 0 .emptyMessage), .monitor 0 ⟨80, .tcp⟩ .stop] ++
    [.control (.cleanup 0)]) := by
  refine freeIsFree_of_closesFirst ?_
  refine stepsMeet_append.mpr ⟨stepsMeet_append.mpr ⟨stepsMeet_append.mpr ⟨?_, ?_⟩, ?_⟩, ?_⟩
  · exact stepsMeet_of_forall (by simp [ClosesFirst]) _
  · -- the monitor binds while its controller runs
    intro s hrun
    obtain rfl := Option.some.inj hrun
    refine stepsMeet_singleton.mpr ⟨by simp, ?_⟩
    rintro c p ha ⟨ctl, hctl, hphase⟩
    cases ha
    cases hctl
    cases hphase
  · intro s _
    exact stepsMeet_of_forall (by simp [ClosesFirst]) s
  · -- and it has ended when its controller cleans up
    intro s hrun
    have hwatch : s.watch.entries = [⟨(0, ⟨80, .tcp⟩), ⟨.ended, none⟩⟩] := by
      obtain rfl := Option.some.inj hrun
      rfl
    refine stepsMeet_singleton.mpr ⟨?_, by simp⟩
    intro c p w _ hw
    have hmem := AList.mem_lookup_iff.mp hw
    rw [hwatch] at hmem
    cases List.mem_singleton.mp hmem
    rfl

end MonitorSystem

end Rslinker
