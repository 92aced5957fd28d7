import Rslinker.Server.Monitors

set_option autoImplicit false

/-! # Served ports

A port that is reserved for a controller has a monitor, as long as that monitor does not fail. When
it does, the controller learns of it from a TCP monitor only, and all it then does is to fire the
monitor: the port stays in `self.ports` and in `using_ports` until the controller has finished.

A UDP monitor that fails does so in silence, and its port has nobody who listens while the client
still believes that it is served. For a TCP monitor the controller knows, and does nothing with it.
-/

namespace Rslinker

namespace Watch

/-- The step, when it is taken, ends the monitor with an error or a panic. -/
def Fails (w : Watch) : Act → Prop
  | .bind ok => ok = false
  | .accept => ∃ u, w.udp = some u ∧ u.receiver ≠ .running ∧ u.handed.length ≤ u.accepted
  | .acceptError => True
  | .stop | .udp _ => False

/-- The leader keeps the sender of the monitor of `p` and has sent it nothing. -/
def Hired (l : MonitorLeader) (p : Port) : Prop :=
  l.senders.lookup p = some p ∧ l.employees p = some ⟨p, [], false⟩

theorem hired_report {l : MonitorLeader} {p q : Port} (h : Hired l q) (msg : MonitorReport) :
    Hired (l.report p msg) q := by
  simpa [Hired] using h

theorem hired_leave {l : MonitorLeader} {p q : Port} (h : Hired l q) (hne : q ≠ p) :
    Hired (l.dropEmployee p) q := by
  refine ⟨by simpa using h.1, ?_⟩
  rw [Chat.Leader.dropEmployee_employees_of_ne _ hne]
  exact h.2

/-- What the leader has after a step of the monitor of `p`. -/
structure Follows (l l' : MonitorLeader) (p : Port) (w' : Watch) : Prop where
  others : ∀ q, q ≠ p → Hired l q → Hired l' q
  hired : w'.task ≠ .ended → Hired l p → Hired l' p
  errors : ∀ q, (q, .error) ∈ l'.reports → (q, .error) ∈ l.reports ∨ q = p ∧ w'.task = .ended

theorem follows_same (l : MonitorLeader) (p : Port) (w' : Watch) : Follows l l p w' :=
  ⟨fun _ _ h => h, fun _ h => h, fun _ h => Or.inl h⟩

/-- A connection is reported. -/
theorem follows_new {l : MonitorLeader} {p : Port} {msg : MonitorReport} (w' : Watch)
    (hl : Hired l p) (hmsg : msg ≠ .error) : Follows l (l.report p msg) p w' := by
  refine ⟨fun _ _ h => hired_report h msg, fun _ h => hired_report h msg, ?_⟩
  intro q hq
  rw [Chat.Leader.report_reports hl.2, List.mem_append, List.mem_singleton] at hq
  rcases hq with hq | hq
  · exact Or.inl hq
  · cases hq
    exact absurd rfl hmsg

/-- The monitor ends, with a report or without. -/
theorem follows_ended {l : MonitorLeader} {p : Port} {w' : Watch} (hl : Hired l p)
    (hended : w'.task = .ended) :
    Follows l (l.dropEmployee p) p w' ∧ Follows l ((l.report p .error).dropEmployee p) p w' := by
  constructor
  · refine ⟨fun _ hne h => hired_leave h hne, fun hrun => absurd hended hrun, ?_⟩
    intro q hq
    exact Or.inl (by simpa using hq)
  · refine ⟨fun _ hne h => hired_leave (hired_report h _) hne, fun hrun => absurd hended hrun, ?_⟩
    intro q hq
    rw [Chat.Leader.dropEmployee_reports, Chat.Leader.report_reports hl.2, List.mem_append,
      List.mem_singleton] at hq
    rcases hq with hq | hq
    · exact Or.inl hq
    · cases hq
      exact Or.inr ⟨rfl, hended⟩

/-- **A step of a monitor that nobody has stopped**: it ends exactly when it fails. -/
theorem step_hired {l : MonitorLeader} {free : Bool} {p : Port} {w : Watch}
    {r : Watch × Option MonitorLeader} {a : Act} (h : w.step (some l) free p a = some r)
    (hl : w.task ≠ .ended → Hired l p) :
    ∃ l', r.2 = some l' ∧ (r.1.task = .ended ↔ w.task = .ended ∨ w.Fails a) ∧
      Follows l l' p r.1 := by
  cases step_rel h with
  | tcpBound htask | udpBound htask =>
      exact ⟨l, rfl, by simp [Fails, htask], follows_same l p _⟩
  | tcpUnbound htask =>
      exact ⟨_, rfl, by simp [Fails], (follows_ended (hl (by simp [htask])) rfl).2⟩
  | udpUnbound htask =>
      exact ⟨_, rfl, by simp [Fails], (follows_ended (hl (by simp [htask])) rfl).1⟩
  | tcpAccepted htask hudp =>
      exact ⟨_, rfl, by simp [Fails, hudp, htask], follows_new w (hl (by simp [htask])) (by simp)⟩
  | tcpUnheard _ _ hleader | udpUnheard _ _ _ _ _ _ hleader => cases hleader
  | udpAccepted u u' htask hudp _ hlt =>
      refine ⟨_, rfl, ?_, follows_new _ (hl (by simp [htask])) (by simp)⟩
      simp [Fails, hudp, htask, hlt]
  | udpPanic u u' htask hudp _ hle hreceiver =>
      refine ⟨_, rfl, ?_, (follows_ended (hl (by simp [htask])) rfl).1⟩
      simp [Fails, hudp, hle, hreceiver]
  | acceptError htask =>
      exact ⟨_, rfl, by simp [Fails], (follows_ended (hl (by simp [htask])) rfl).2⟩
  | stop htask hstopped =>
      -- nobody has sent it anything, and its sender is there
      have hlp : Hired l p := hl (by simp [htask])
      exact absurd (Chat.Leader.wait_pending hlp.2 rfl hlp.1) (hstopped l rfl)
  | udp b => exact ⟨l, rfl, by simp [Fails], follows_same l p _⟩

end Watch

namespace MonitorSystem

open Controller PortSystem Watch

/-- The controller that a step is about. -/
def Act.controller : Act → ControllerId
  | .control a => a.actor
  | .handle c _ | .monitor c _ _ => c

/-- A monitor of the controller fails in this step. -/
def MonitorFails (c : ControllerId) (s : MonitorSystem) (a : Act) : Prop :=
  ∃ p b w, a = .monitor c p b ∧ s.watch.lookup (c, p) = some w ∧ w.Fails b

/-- Every port that the controller has and that is in use has a monitor that runs; a port whose
monitor has ended has been reported, after which its monitor is fired, and given back. -/
structure PortsServed (s : MonitorSystem) (c : ControllerId) (ctl : Controller)
    (l : MonitorLeader) : Prop where
  running : ∀ p ∈ ctl.ports, p ∈ s.server.usingPorts →
    ∃ w, s.watch.lookup (c, p) = some w ∧ w.task ≠ .ended
  ended : ∀ p w, s.watch.lookup (c, p) = some w → w.task = .ended →
    p ∉ l.senders ∧ p ∉ ctl.ports

/-- The monitors of a controller that has not come to its end: one for every port, hired and not
told to stop unless it has ended by itself, which only such a monitor reports. -/
structure Supervised (s : MonitorSystem) (c : ControllerId) (ctl : Controller)
    (l : MonitorLeader) : Prop where
  watched : ∀ p, (∃ w, s.watch.lookup (c, p) = some w) ↔ ctl.phase = .looping ∧ p ∈ ctl.ports
  hired : ∀ p w, s.watch.lookup (c, p) = some w → w.task ≠ .ended → Hired l p
  reported : ∀ p, (p, .error) ∈ l.reports → ∃ w, s.watch.lookup (c, p) = some w ∧ w.task = .ended

def SomeEnded (s : MonitorSystem) (c : ControllerId) : Prop :=
  ∃ p w, s.watch.lookup (c, p) = some w ∧ w.task = .ended

/-- The state of a controller, in a run in which one of its monitors has `failed` or not. -/
structure Kept (c : ControllerId) (s : MonitorSystem) (failed : Prop) : Prop where
  fresh : s.server.controllers c = none → ∀ p, s.watch.lookup (c, p) = none
  early : s.server.controllers c = none → ¬ failed
  running : ∀ ctl, s.server.controllers c = some ctl → ctl.phase ≠ .cleaning →
    ctl.phase ≠ .finished →
    ∃ l, s.leader c = some l ∧ Supervised s c ctl l ∧ (SomeEnded s c ↔ failed)

/-! ## Steps of other controllers

A monitor has the leader of its own controller only, and the sockets of other controllers matter to
it just when it binds. So a step that is about another controller leaves everything in `Supervised`
as it is. -/

/-- **Frame rule.** A step of another controller changes nothing here. -/
theorem step_frame {s t : MonitorSystem} {a : Act} (h : s.step a = some t) {c : ControllerId}
    (hc : a.controller ≠ c) :
    t.server.controllers c = s.server.controllers c ∧ t.leader c = s.leader c ∧
      ∀ p, t.watch.lookup (c, p) = s.watch.lookup (c, p) := by
  have hcontrol : ∀ {s t : MonitorSystem} {b : PortSystem.Act}, s.control b = some t →
      b.actor ≠ c → t.server.controllers c = s.server.controllers c ∧ t.leader c = s.leader c ∧
      ∀ p, t.watch.lookup (c, p) = s.watch.lookup (c, p) := by
    intro s t b h hb
    obtain ⟨hstep, heq⟩ := control_eq h
    refine ⟨step_controllers_of_ne hstep hb, ?_, fun p => ?_⟩
    · rw [heq]
      exact follow_leader_of_ne s _ (Ne.symm hb)
    · have hne : ¬ (b = .reply c true ∧ p ∈ granted s.server c) := fun hr => hb (by rw [hr.1]; rfl)
      rw [heq, follow_watch, if_neg hne]
  rcases step_cases h with ⟨b, rfl, hb⟩ | ⟨d, written, l, l', r, rfl, -, -, -, hnew⟩ |
    ⟨d, p, b, w, r, rfl, -, -, rfl⟩
  · exact hcontrol hb hc
  · have hcd : c ≠ d := Ne.symm hc
    rcases newChannel_cases hnew with ⟨-, hmain⟩ | ⟨-, l'', -, -, -, hmain⟩ | ⟨-, rfl⟩
    · have := hcontrol hmain hc
      rwa [setLeader_leader_of_ne _ _ hcd] at this
    · have := hcontrol hmain hc
      rwa [setLeader_leader_of_ne _ _ hcd, setLeader_leader_of_ne _ _ hcd] at this
    · exact ⟨rfl, setLeader_leader_of_ne _ _ hcd, fun _ => rfl⟩
  · have hcd : c ≠ d := Ne.symm hc
    refine ⟨rfl, setLeader_leader_of_ne _ _ hcd, fun q => AList.lookup_insert_ne ?_⟩
    intro hpair
    exact hcd (congrArg Prod.fst hpair)

theorem Kept.of_eq {c : ControllerId} {s t : MonitorSystem} {failed : Prop} (h : Kept c s failed)
    (hserver : t.server.controllers c = s.server.controllers c) (hleader : t.leader c = s.leader c)
    (hwatch : ∀ p, t.watch.lookup (c, p) = s.watch.lookup (c, p)) : Kept c t failed := by
  refine ⟨fun hnone p => ?_, fun hnone => h.early (hserver ▸ hnone), ?_⟩
  · rw [hwatch]
    exact h.fresh (hserver ▸ hnone) p
  · intro ctl hctl hcleaning hfinished
    obtain ⟨l, hl, hsup, hiff⟩ := h.running ctl (hserver ▸ hctl) hcleaning hfinished
    refine ⟨l, hleader.trans hl, ⟨?_, ?_, ?_⟩, ?_⟩
    · simpa only [hwatch] using hsup.watched
    · simpa only [hwatch] using hsup.hired
    · simpa only [hwatch] using hsup.reported
    · simpa only [SomeEnded, hwatch] using hiff

/-! ## Steps of the controller

The account starts with the reply, when all monitors are started at once. From then on the
controller only receives reports until it comes to its end, which is outside of the statement. -/

/-- What is left to show for a controller that exists. -/
theorem kept_of_some {c : ControllerId} {t : MonitorSystem} {ctl : Controller} {failed : Prop}
    (hctl : t.server.controllers c = some ctl)
    (h : ctl.phase ≠ .cleaning → ctl.phase ≠ .finished →
      ∃ l, t.leader c = some l ∧ Supervised t c ctl l ∧ (SomeEnded t c ↔ failed)) :
    Kept c t failed := by
  refine ⟨fun hnone => ?_, fun hnone => ?_, ?_⟩
  · rw [hctl] at hnone
    cases hnone
  · rw [hctl] at hnone
    cases hnone
  · intro ctl' hctl' hcleaning hfinished
    rw [hctl] at hctl'
    cases hctl'
    exact h hcleaning hfinished

/-- Before `main_loop` there are no monitors, so none has failed. -/
theorem Kept.advance {c : ControllerId} {s t : MonitorSystem} {ctl ctl' : Controller} {failed : Prop}
    (h : Kept c s failed) (hctl : s.server.controllers c = some ctl)
    (hold : ctl.phase ≠ .looping ∧ ctl.phase ≠ .cleaning ∧ ctl.phase ≠ .finished)
    (hctl' : t.server.controllers c = some ctl') (hnew : ctl'.phase ≠ .looping)
    (hleader : t.leader c = s.leader c)
    (hwatch : ∀ p, t.watch.lookup (c, p) = s.watch.lookup (c, p)) : Kept c t failed := by
  refine kept_of_some hctl' fun _ _ => ?_
  obtain ⟨l, hl, hsup, hiff⟩ := h.running ctl hctl hold.2.1 hold.2.2
  have hnone : ∀ p w, t.watch.lookup (c, p) ≠ some w := by
    intro p w hw
    rw [hwatch] at hw
    exact hold.1 ((hsup.watched p).mp ⟨w, hw⟩).1
  refine ⟨l, hleader.trans hl, ⟨?_, fun p w hw => absurd hw (hnone p w), ?_⟩, ?_⟩
  · intro p
    constructor
    · rintro ⟨w, hw⟩
      exact absurd hw (hnone p w)
    · exact fun hp => absurd hp.1 hnew
  · intro p hp
    obtain ⟨w, hw, -⟩ := hsup.reported p hp
    rw [← hwatch] at hw
    exact absurd hw (hnone p w)
  · simpa only [SomeEnded, hwatch] using hiff

/-- The reply starts a monitor for every port it grants, and there were none before. -/
theorem Kept.replied {c : ControllerId} {s t : MonitorSystem} {ctl ctl' : Controller}
    {accepted : Accepted} {success : List Port} {failed : Prop} (h : Kept c s failed)
    (hctl : s.server.controllers c = some ctl) (hphase : ctl.phase = .replying accepted success)
    (heq : t = s.follow t.server (.reply c true)) (hself : t.server.controllers c = some ctl')
    (hlooping : ctl'.phase = .looping) (hports : ctl'.ports = success.toFinset) :
    Kept c t failed := by
  refine kept_of_some hself fun _ _ => ?_
  obtain ⟨l, hl, hsup, hiff⟩ := h.running ctl hctl (by simp [hphase]) (by simp [hphase])
  have hgranted : granted s.server c = success := by simp [granted, hctl, hphase]
  have hold : ∀ p w, s.watch.lookup (c, p) ≠ some w := by
    intro p w hw
    simpa [hphase] using ((hsup.watched p).mp ⟨w, hw⟩).1
  have hw : ∀ p w, t.watch.lookup (c, p) = some w ↔ p ∈ success ∧ w = .spawn := by
    intro p w
    rw [heq, follow_watch, hgranted]
    by_cases hp : p ∈ success
    · simp [hp, eq_comm]
    · simp [hp, hold p w]
  obtain ⟨hsenders, hemployees, hreports⟩ := foldl_hire success l
  have htl : t.leader c = some (success.foldl (fun l p => l.hire p p) l) := by
    rw [heq]
    simp [follow, (foldl_startMonitor c success _).2.2, hgranted, hl]
  refine ⟨_, htl, ⟨?_, ?_, ?_⟩, ?_⟩
  · simp [hw, hlooping, hports]
  · intro p w hpw _
    have hp : p ∈ success := ((hw p w).mp hpw).1
    exact ⟨by rw [hsenders, if_pos hp], by rw [hemployees, if_pos hp]⟩
  · intro p hp
    rw [hreports] at hp
    obtain ⟨w, hw, -⟩ := hsup.reported p hp
    exact absurd hw (hold p w)
  · have hnone : ¬ failed := by
      rw [← hiff]
      rintro ⟨p, w, hpw, -⟩
      exact hold p w hpw
    refine iff_of_false ?_ hnone
    rintro ⟨p, w, hpw, hended⟩
    obtain ⟨-, rfl⟩ := (hw p w).mp hpw
    cases hended

theorem Kept.control {c : ControllerId} {s t : MonitorSystem} {b : PortSystem.Act} {failed : Prop}
    (h : Kept c s failed) (hstep : s.control b = some t) (hb : b.actor = c) : Kept c t failed := by
  obtain ⟨hserver, heq⟩ := control_eq hstep
  -- only the reply starts monitors
  have hwatch : (∀ d, b ≠ .reply d true) → ∀ p, t.watch.lookup (c, p) = s.watch.lookup (c, p) := by
    intro hreply p
    rw [heq, follow_watch, if_neg fun hr => hreply c hr.1]
  have hleader : (∀ d, b ≠ .fromServer d) → (∀ d, b ≠ .reply d true) →
      (∀ d, b ≠ .cleanup d) → ends b = false → t.leader c = s.leader c := by
    intro hnew hreply hclean hends
    have hresult : ¬ HasResult t.server b.actor := by
      rw [hasResult_iff hserver, hends]
      simp
    rw [heq, follow_leader_same s hnew hreply hresult hclean]
  have hrel := step_rel hserver
  generalize hsv : t.server = server at hrel
  cases hrel with
  | fromServer d hnew =>
      obtain rfl : d = c := hb
      refine kept_of_some (hsv ▸ set_controllers_self _ _ _) fun _ _ => ?_
      have hl : t.leader d = some .new := by
        rw [heq]
        simp [follow]
      have hnone : ∀ p, t.watch.lookup (d, p) = none := by
        intro p
        rw [hwatch (by simp) p]
        exact h.fresh hnew p
      refine ⟨.new, hl, ⟨?_, ?_, ?_⟩, ?_⟩
      · simp [hnone, fromServer]
      · simp [hnone]
      · simp [Chat.Leader.new]
      · simp [SomeEnded, hnone, h.early hnew]
  | acceptClient d ctl written hctl hphase =>
      obtain rfl : d = c := hb
      have hself := hsv ▸ set_controllers_self s.server d
        { ctl with phase := if written then .configuring else .cleaning }
      cases written with
      | false => exact kept_of_some hself fun hcleaning => absurd rfl hcleaning
      | true =>
          exact h.advance hctl (by simp [hphase]) hself (by simp)
            (hleader (by simp) (by simp) (by simp) rfl) (hwatch (by simp))
  | pushConfig d ctl ports interval hctl hphase =>
      obtain rfl : d = c := hb
      exact h.advance hctl (by simp [hphase]) (hsv ▸ set_controllers_self _ _ _) (by simp)
        (hleader (by simp) (by simp) (by simp) rfl) (hwatch (by simp))
  | noConfig d ctl msg hmsg hctl hphase =>
      obtain rfl : d = c := hb
      exact kept_of_some (hsv ▸ set_controllers_self _ _ _) fun hcleaning => absurd rfl hcleaning
  | reserve d ctl ports hctl hphase hlock =>
      obtain rfl : d = c := hb
      exact h.advance hctl (by simp [hphase]) (hsv ▸ set_controllers_self _ _ _) (by simp)
        (hleader (by simp) (by simp) (by simp) rfl) (hwatch (by simp))
  | replied d ctl accepted success hctl hphase =>
      obtain rfl : d = c := hb
      exact h.replied hctl hphase heq (hsv ▸ set_controllers_self _ _ _) rfl rfl
  | replyFailed d ctl accepted success hctl hphase =>
      obtain rfl : d = c := hb
      exact kept_of_some (hsv ▸ set_controllers_self _ _ _) fun hcleaning => absurd rfl hcleaning
  | mainLoop d ctl event hctl hphase =>
      obtain rfl : d = c := hb
      have hself := hsv ▸ set_controllers_self s.server d
        { ctl with phase := if event.ends then .cleaning else .looping }
      cases hends : event.ends with
      | true =>
          refine kept_of_some hself fun hcleaning => ?_
          exact absurd (by simp [hends]) hcleaning
      | false =>
          -- the loop goes on with the same ports and monitors
          refine kept_of_some hself fun _ _ => ?_
          obtain ⟨l, hl, hsup, hiff⟩ := h.running ctl hctl (by simp [hphase]) (by simp [hphase])
          have hsame : t.leader d = s.leader d := hleader (by simp) (by simp) (by simp) hends
          have hw := hwatch (by simp)
          refine ⟨l, hsame.trans hl, ⟨?_, ?_, ?_⟩, ?_⟩
          · simpa [hw, hphase, hends] using hsup.watched
          · simpa only [hw] using hsup.hired
          · simpa only [hw] using hsup.reported
          · simpa only [SomeEnded, hw] using hiff
  | cleanup d ctl hctl hphase hlock =>
      obtain rfl : d = c := hb
      exact kept_of_some (hsv ▸ set_controllers_self _ _ _) fun _ hfinished => absurd rfl hfinished

/-! ## Steps of the monitors

A monitor that has not been told to stop ends only by failing. A TCP monitor reports this and its
controller fires it; of a UDP monitor nobody learns. In both cases the port stays with the
controller. -/

/-- A controller receives a report, and fires the monitor of an error. -/
theorem Kept.received {c : ControllerId} {s : MonitorSystem} {l l' l'' : MonitorLeader}
    {r : Port × MonitorReport} {failed : Prop} (h : Kept c s failed) (hl : s.leader c = some l)
    (hr : l.receive = some (r, l'))
    (hfired : l'' = l' ∨ r.2 = .error ∧ l'.fired r.1 = some l'') :
    Kept c (s.setLeader c (some l'')) failed := by
  obtain ⟨hreports, hsenders, hemployees⟩ := Chat.Leader.receive_eq_some hr
  refine ⟨h.fresh, h.early, fun ctl hctl hcleaning hfinished => ?_⟩
  obtain ⟨l₀, hl₀, hsup, hiff⟩ := h.running ctl hctl hcleaning hfinished
  cases hl.symm.trans hl₀
  have hold : ∀ q, Hired l q → Hired l' q := by
    intro q hq
    exact ⟨by rw [hsenders]; exact hq.1, by rw [hemployees]; exact hq.2⟩
  refine ⟨l'', setLeader_leader_self _ _ _, ⟨hsup.watched, ?_, ?_⟩, hiff⟩
  · intro q w hw hrun
    have hq : Hired l' q := hold q (hsup.hired q w hw hrun)
    rcases hfired with rfl | ⟨herror, hfired⟩
    · exact hq
    · -- the monitor that is fired has ended, so it is another one
      obtain ⟨herased, hsame, -⟩ := Chat.Leader.fired_eq_some hfired
      have hne : q ≠ r.1 := by
        rintro rfl
        obtain ⟨w', hw', hended⟩ := hsup.reported r.1 (by rw [hreports, ← herror]; simp)
        cases hw.symm.trans hw'
        exact hrun hended
      refine ⟨?_, by rw [hsame]; exact hq.2⟩
      rw [herased, AList.lookup_erase_ne hne]
      exact hq.1
  · intro q hq
    have hq' : (q, .error) ∈ l'.reports := by
      rcases hfired with rfl | ⟨-, hfired⟩
      · exact hq
      · rwa [(Chat.Leader.fired_eq_some hfired).2.2] at hq
    exact hsup.reported q (by rw [hreports]; exact List.mem_cons_of_mem _ hq')

theorem Kept.monitor {c : ControllerId} {s : MonitorSystem} {p : Port} {b : Watch.Act} {w : Watch}
    {r : Watch × Option MonitorLeader} {failed : Prop} (h : Kept c s failed)
    (hw : s.watch.lookup (c, p) = some w) (hr : w.step (s.leader c) (s.free p) p b = some r) :
    Kept c { s.setLeader c r.2 with watch := s.watch.insert (c, p) r.1 }
      (failed ∨ w.Fails b) := by
  have hself : (s.watch.insert (c, p) r.1).lookup (c, p) = some r.1 := AList.lookup_insert _
  have hother : ∀ {q}, q ≠ p →
      (s.watch.insert (c, p) r.1).lookup (c, q) = s.watch.lookup (c, q) :=
    lookup_insert_of_ne s.watch r.1
  have hexists : s.server.controllers c ≠ none := by
    intro hnone
    rw [h.fresh hnone p] at hw
    cases hw
  refine ⟨fun hnone => absurd hnone hexists, fun hnone => absurd hnone hexists, ?_⟩
  intro ctl hctl hcleaning hfinished
  obtain ⟨l, hl, hsup, hiff⟩ := h.running ctl hctl hcleaning hfinished
  rw [hl] at hr
  obtain ⟨l', hl', hended, hfollows⟩ := Watch.step_hired hr (hsup.hired p w hw)
  have hrun : r.1.task ≠ .ended → w.task ≠ .ended := fun hr' he => hr' (hended.mpr (Or.inl he))
  refine ⟨l', by rw [← hl']; exact setLeader_leader_self _ _ _, ⟨?_, ?_, ?_⟩, ?_⟩
  · exact fun q => (exists_lookup_insert hw r.1 q).trans (hsup.watched q)
  · intro q w' hw' hr'
    rcases lookup_insert_cases hw' with ⟨rfl, rfl⟩ | ⟨hq, hw'⟩
    · exact hfollows.hired hr' (hsup.hired q w hw (hrun hr'))
    · exact hfollows.others q hq (hsup.hired q w' hw' hr')
  · intro q hq
    rcases hfollows.errors q hq with hq | ⟨rfl, hend⟩
    · obtain ⟨w', hw', hend⟩ := hsup.reported q hq
      by_cases hqp : q = p
      · subst hqp
        cases hw.symm.trans hw'
        exact ⟨r.1, hself, hended.mpr (Or.inl hend)⟩
      · exact ⟨w', by rw [hother hqp]; exact hw', hend⟩
    · exact ⟨r.1, hself, hend⟩
  · rw [← hiff]
    constructor
    · rintro ⟨q, w', hw', hend⟩
      rcases lookup_insert_cases hw' with ⟨rfl, rfl⟩ | ⟨-, hw'⟩
      · exact (hended.mp hend).imp (fun he => ⟨q, w, hw, he⟩) id
      · exact Or.inl ⟨q, w', hw', hend⟩
    · rintro (⟨q, w', hw', hend⟩ | hfails)
      · by_cases hq : q = p
        · subst hq
          cases hw.symm.trans hw'
          exact ⟨q, r.1, hself, hended.mpr (Or.inl hend)⟩
        · exact ⟨q, w', by rw [hother hq]; exact hw', hend⟩
      · exact ⟨p, r.1, hself, hended.mpr (Or.inr hfails)⟩

/-- **A step keeps the account of the monitors of a controller.** -/
theorem step_kept {c : ControllerId} {s t : MonitorSystem} {a : Act} {failed : Prop}
    (hs : Kept c s failed) (h : s.step a = some t) : Kept c t (failed ∨ MonitorFails c s a) := by
  have hnone : (∀ p b, a ≠ .monitor c p b) → (failed ∨ MonitorFails c s a) = failed := by
    intro ha
    refine propext (or_iff_left ?_)
    rintro ⟨p, b, w, heq, -⟩
    exact ha p b heq
  by_cases hc : a.controller = c
  · rcases step_cases h with ⟨b, rfl, hb⟩ | ⟨d, written, l, l', r, rfl, -, hl, hr, hnew⟩ |
      ⟨d, p, b, w, r, rfl, hw, hr, rfl⟩
    · rw [hnone (by simp)]
      exact hs.control hb hc
    · obtain rfl : d = c := hc
      rw [hnone (by simp)]
      have hs' := hs.received hl hr (Or.inl rfl)
      rcases newChannel_cases hnew with ⟨-, hmain⟩ | ⟨l₁, l'', herror, hl₁, hfired, hmain⟩ |
        ⟨-, rfl⟩
      · exact hs'.control hmain rfl
      · rw [setLeader_leader_self] at hl₁
        cases hl₁
        have hs'' := hs.received hl hr (Or.inr ⟨herror, hfired⟩)
        have heq : (s.setLeader d (some l')).setLeader d (some l'') = s.setLeader d (some l'') := by
          simp [setLeader]
        rw [heq] at hmain
        exact hs''.control hmain rfl
      · exact hs'.of_eq rfl rfl fun _ => rfl
    · obtain rfl : d = c := hc
      have hiff : (failed ∨ MonitorFails d s (.monitor d p b)) = (failed ∨ w.Fails b) := by
        refine propext (or_congr_right ⟨?_, fun hfails => ⟨p, b, w, rfl, hw, hfails⟩⟩)
        rintro ⟨q, b', w', heq, hw', hfails⟩
        cases heq
        cases hw.symm.trans hw'
        exact hfails
      rw [hiff]
      exact hs.monitor hw hr
  · have hframe := step_frame h hc
    rw [hnone]
    · exact hs.of_eq hframe.1 hframe.2.1 hframe.2.2
    · rintro p b rfl
      exact hc rfl

/-! ## The runs

The condition is about the run, that none of the monitors of the controller fails in it, and it is
exact: a monitor that has ended never starts again, so its port stays without one as long as
`main_loop` runs. -/

theorem kept_of_run {acts : List Act} {s : MonitorSystem} (c : ControllerId)
    (hrun : run step init acts = some s) :
    Kept c s (¬ StepsMeet step (fun s a => ¬ MonitorFails c s a) init acts) := by
  have hinit : Kept c init (¬ StepsMeet step (fun s a => ¬ MonitorFails c s a) init []) := by
    refine ⟨fun _ _ => rfl, fun _ h => h trivial, ?_⟩
    intro ctl hctl
    cases hctl
  refine run_induction (P := fun s done =>
    Kept c s (¬ StepsMeet step (fun s a => ¬ MonitorFails c s a) init done)) hinit ?_ hrun
  intro done s a t hdone hs hstep
  have hkept := step_kept hs hstep
  rw [stepsMeet_concat hdone, not_and_or, not_not]
  exact hkept

/-- **A reserved port is a served port** in the `main_loop` of a controller that has handled all its
reports, exactly when none of its monitors has failed in the run. -/
theorem portsServed_iff {acts : List Act} {s : MonitorSystem} (hrun : run step init acts = some s)
    {c : ControllerId} {ctl : Controller} {l : MonitorLeader}
    (hctl : s.server.controllers c = some ctl) (hphase : ctl.phase = .looping)
    (hl : s.leader c = some l) (_ : l.reports = []) :
    PortsServed s c ctl l ↔ StepsMeet step (fun s a => ¬ MonitorFails c s a) init acts := by
  obtain ⟨l₀, hl₀, hsup, hiff⟩ :=
    (kept_of_run c hrun).running ctl hctl (by simp [hphase]) (by simp [hphase])
  cases hl.symm.trans hl₀
  constructor
  · -- a monitor that has ended still has its port
    intro hserved
    by_contra hfailed
    obtain ⟨p, w, hw, hended⟩ := hiff.mpr hfailed
    exact (hserved.ended p w hw hended).2 ((hsup.watched p).mp ⟨w, hw⟩).2
  · intro hmeet
    have hnone : ¬ SomeEnded s c := fun hended => hiff.mp hended hmeet
    refine ⟨?_, fun p w hw hended => absurd ⟨p, w, hw, hended⟩ hnone⟩
    intro p hp _
    obtain ⟨w, hw⟩ := (hsup.watched p).mpr ⟨hphase, hp⟩
    exact ⟨w, hw, fun hended => hnone ⟨p, w, hw, hended⟩⟩

def twoPorts : List Act :=
  [.control (.fromServer 0), .control (.acceptClient 0 true),
    .control (.recvConfig 0 (some (.pushConfig [⟨80, .tcp⟩, ⟨53, .udp⟩] none))),
    .control (.reserve 0), .control (.reply 0 true)]

/-- Neither monitor can bind; the controller handles the one report there is. Both ports stay
reserved. -/
theorem not_portsServed_bindFails :
    ¬ ∀ s : MonitorSystem, Reaches step init s → ∀ c ctl l, s.server.controllers c = some ctl →
        ctl.phase = .looping → s.leader c = some l → l.reports = [] → PortsServed s c ctl l := by
  intro hall
  have hrun : ∃ s ctl l, run step init (twoPorts ++ [.monitor 0 ⟨80, .tcp⟩ (.bind false),
        .monitor 0 ⟨53, .udp⟩ (.bind false), .handle 0 true]) = some s ∧
      s.server.controllers 0 = some ctl ∧ ctl.phase = .looping ∧ s.leader 0 = some l ∧
      l.reports = [] ∧ ⟨80, .tcp⟩ ∈ ctl.ports ∧
      s.watch.lookup (0, ⟨80, .tcp⟩) = some ⟨.ended, none⟩ :=
    ⟨_, _, _, rfl, rfl, rfl, rfl, rfl, by decide, rfl⟩
  obtain ⟨s, ctl, l, hrun, hctl, hphase, hl, hreports, hport, hwatch⟩ := hrun
  have hserved := hall s ⟨_, hrun⟩ 0 ctl l hctl hphase hl hreports
  exact (hserved.ended _ _ hwatch rfl).2 hport

/-- The rule when both monitors bind. -/
theorem portsServed_twoPorts : ∃ s ctl l, run step init (twoPorts ++
      [.monitor 0 ⟨80, .tcp⟩ (.bind true), .monitor 0 ⟨53, .udp⟩ (.bind true)]) = some s ∧
    PortsServed s 0 ctl l := by
  have hrun : ∃ s ctl l, run step init (twoPorts ++
        [.monitor 0 ⟨80, .tcp⟩ (.bind true), .monitor 0 ⟨53, .udp⟩ (.bind true)]) = some s ∧
      s.server.controllers 0 = some ctl ∧ ctl.phase = .looping ∧ s.leader 0 = some l ∧
      l.reports = [] := ⟨_, _, _, rfl, rfl, rfl, rfl, rfl⟩
  obtain ⟨s, ctl, l, hrun, hctl, hphase, hl, hreports⟩ := hrun
  refine ⟨s, ctl, l, hrun, (portsServed_iff hrun hctl hphase hl hreports).mpr ?_⟩
  refine stepsMeet_of_forall ?_ _
  simp [twoPorts, MonitorFails, Watch.Fails]

end MonitorSystem

end Rslinker
