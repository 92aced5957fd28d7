import Rslinker.Basic.Queue
import Rslinker.Server.Starting

set_option autoImplicit false

/-! # Fired monitors

When a controller receives the error of a monitor it fires that monitor, and `Leader::fired` unwraps
the sender it removes. The sender is there: a monitor is hired once, it is fired for an error only,
and an error is the last thing it reports.

The argument is about the order of three things: the hiring, the error, and its handling. The
monitors run while the others are still being started, so the account is kept from the first of
them on (`Starting.lean`).
-/

namespace Rslinker

namespace Watch

/-! ## What a monitor reports

One step of a monitor, from the side of its leader: it reports nothing, a connection, or an error,
and in the last case the task ends. A UDP monitor ends without a report. The leader may be gone,
and then the report is lost and the task ends as well. -/

/-- What the monitor of `p` passes to `Employee::report` in a step, whether it reaches the leader or
not. -/
def reports (leader : Option MonitorLeader) (p : Port) (w : Watch) : Act → List MonitorReport
  | .bind ok => if p.protocol = .tcp ∧ ok = false then [.error] else []
  | .accept =>
      match w.udp with
      -- when the connection cannot be reported, the monitor tries to report that
      | none => if leader.isSome then [.newTcp] else [.newTcp, .error]
      | some u =>
          if u.accepted < u.handed.length then [.newUdp (u.handed.getD u.accepted 0)] else []
  | .acceptError => [.error]
  | .stop | .udp _ => []

structure Heard (l l' : MonitorLeader) (p : Port) (msgs : List MonitorReport) : Prop where
  senders : l'.senders = l.senders
  employed : ∀ q, l.EmployedAs q q → l'.EmployedAs q q
  reports : l'.reports = l.reports ++ msgs.map (p, ·)

/-- A step of the monitor of `p` in which it reports `msgs`. An error is its last report. -/
structure Reported (leader leader' : Option MonitorLeader) (p : Port) (w w' : Watch)
    (msgs : List MonitorReport) : Prop where
  silent : w.task = .ended → msgs = [] ∧ w'.task = .ended
  last : msgs.Pairwise fun a _ => a ≠ .error
  ends : .error ∈ msgs → w'.task = .ended
  gone : leader = none → leader' = none
  heard : ∀ l, leader = some l → l.EmployedAs p p → ∃ l', leader' = some l' ∧ Heard l l' p msgs

section Reported

variable {leader : Option MonitorLeader} {l l' : MonitorLeader} {p : Port} {w w' : Watch}
  {msg : MonitorReport} {msgs : List MonitorReport}

theorem heard_nothing (l : MonitorLeader) (p : Port) : Heard l l p [] :=
  ⟨rfl, fun _ h => h, by simp⟩

theorem heard_report (hp : l.EmployedAs p p) (msg : MonitorReport) :
    Heard l (l.report p msg) p [msg] := by
  obtain ⟨e, he, hid⟩ := hp
  refine ⟨by simp, fun q hq => hq.of_eq (by simp), ?_⟩
  rw [Chat.Leader.report_reports he, hid]
  rfl

/-- The employee is dropped afterwards. -/
theorem Heard.leave (h : Heard l l' p msgs) : Heard l (l'.dropEmployee p) p msgs :=
  ⟨by simpa using h.senders, fun q hq => (h.employed q hq).dropEmployee p, by simpa using h.reports⟩

theorem reported_nothing (hended : w.task = .ended → w'.task = .ended) :
    Reported leader leader p w w' [] :=
  ⟨fun hw => ⟨rfl, hended hw⟩, .nil, by simp, id, fun l hl _ => ⟨l, hl, heard_nothing l p⟩⟩

/-- The task ends without a report. -/
theorem reported_leave (hrun : w.task ≠ .ended) :
    Reported leader (Watch.leave leader p) p w w' [] := by
  refine ⟨fun hw => absurd hw hrun, .nil, by simp, fun hl => by rw [hl]; rfl, ?_⟩
  rintro l rfl -
  exact ⟨l.dropEmployee p, rfl, (heard_nothing l p).leave⟩

/-- A connection is reported. -/
theorem reported_new (hrun : w.task ≠ .ended) (hmsg : msg ≠ .error) :
    Reported leader (report leader p msg) p w w' [msg] := by
  refine ⟨fun hw => absurd hw hrun, by simp, ?_, fun hl => by rw [hl]; rfl, ?_⟩
  · exact fun herror => absurd (List.mem_singleton.mp herror).symm hmsg
  · rintro l rfl hp
    exact ⟨_, rfl, heard_report hp msg⟩

/-- An error is reported, and the task ends. -/
theorem reported_error (hrun : w.task ≠ .ended) (hended : w'.task = .ended) :
    Reported leader (Watch.leave (report leader p .error) p) p w w' [.error] := by
  refine ⟨fun hw => absurd hw hrun, by simp, fun _ => hended, fun hl => by rw [hl]; rfl, ?_⟩
  rintro l rfl hp
  exact ⟨_, rfl, (heard_report hp .error).leave⟩

/-- The leader is gone, and the task ends when it finds out. -/
theorem reported_gone (hrun : w.task ≠ .ended) (hended : w'.task = .ended)
    (hlast : msgs.Pairwise fun a _ => a ≠ .error) : Reported none none p w w' msgs :=
  ⟨fun hw => absurd hw hrun, hlast, fun _ => hended, id, fun l hl => by cases hl⟩

/-- **A monitor ends with its error.** -/
theorem step_reported {free : Bool} {r : Watch × Option MonitorLeader} {a : Act}
    (h : w.step leader free p a = some r) : Reported leader r.2 p w r.1 (w.reports leader p a) := by
  cases step_rel h with
  | tcpBound htask hp | udpBound htask hp =>
      simpa [reports] using reported_nothing (by simp [htask])
  | tcpUnbound htask hp => simpa [reports, hp] using reported_error (by simp [htask]) rfl
  | udpUnbound htask hp => simpa [reports, hp] using reported_leave (by simp [htask])
  | tcpAccepted htask hudp hleader =>
      simpa [reports, hudp, hleader] using reported_new (by simp [htask]) (by simp)
  | tcpUnheard htask hudp hleader =>
      subst hleader
      simpa [reports, hudp] using reported_gone (by simp [htask]) rfl (by simp)
  | udpAccepted u u' htask hudp _ hlt hleader =>
      simpa [reports, hudp, hlt] using reported_new (by simp [htask]) (by simp)
  | udpUnheard u u' htask hudp _ hlt hleader =>
      subst hleader
      simpa [reports, hudp, hlt] using reported_gone (by simp [htask]) rfl (by simp)
  | udpPanic u u' htask hudp _ hle =>
      simpa [reports, hudp, not_lt.mpr hle] using reported_leave (by simp [htask])
  | acceptError htask => exact reported_error (by simp [htask]) rfl
  | stop htask => exact reported_leave (by simp [htask])
  | udp b => exact reported_nothing id

end Reported

end Watch

namespace StartSystem

open Controller PortSystem MonitorSystem

/-! ## The reports of a run

What is reported and what is received are functions of the actions and of the states in which they
are taken, as `outputs` of the run. In between the reports are in the queue of the leader. -/

/-- What the monitors of `c` report in a step, with their ports. -/
def reportsOf (c : ControllerId) (s : StartSystem) : Act → List (Port × MonitorReport)
  | .system (.monitor d p b) =>
      if d = c then
        match s.monitors.watch.lookup (c, p) with
        | some w => (w.reports (s.monitors.leader c) p b).map (p, ·)
        | none => []
      else []
  | _ => []

/-- The report that the controller `c` receives in a step. -/
def receivedOf (c : ControllerId) (s : StartSystem) : Act → List (Port × MonitorReport)
  | .system (.handle d _) =>
      if d = c then (((s.monitors.leader c).bind (·.receive)).map Prod.fst).toList else []
  | _ => []

def reported (c : ControllerId) (acts : List Act) : List (Port × MonitorReport) :=
  outputs step (reportsOf c) init acts

def received (c : ControllerId) (acts : List Act) : List (Port × MonitorReport) :=
  outputs step (receivedOf c) init acts

/-! ## The account of the reports

For one controller: its reports so far are those received and those in the queue; a port is
registered from the start of its monitor until its error is received; and a monitor that still runs
has reported no error. From this a received error is that of a registered port. -/

/-- `exec` has left `accept_config` behind, or it has failed before. -/
def PastConfig (s : PortSystem) (c : ControllerId) : Prop :=
  ∃ ctl, s.controllers c = some ctl ∧
    (ctl.phase = .looping ∨ ctl.phase = .cleaning ∨ ctl.phase = .finished)

/-- The state of the monitors of `c` after they have reported `made`, of which `seen` has been
received. -/
structure Accounted (s : StartSystem) (c : ControllerId) (made seen : List (Port × MonitorReport)) :
    Prop where
  final : Final (· = .error) made
  watched : ∀ r ∈ made, ∃ w, s.monitors.watch.lookup (c, r.1) = some w ∧
    (r.2 = .error → w.task = .ended)
  received : seen <+: made
  queue : ∀ l, s.monitors.leader c = some l → made = seen ++ l.reports
  employed : ∀ l p w, s.monitors.leader c = some l → s.monitors.watch.lookup (c, p) = some w →
    l.EmployedAs p p
  registered : ∀ l p, s.monitors.leader c = some l →
    (p ∈ l.senders ↔ (∃ w, s.monitors.watch.lookup (c, p) = some w) ∧ (p, .error) ∉ seen)
  waiting : ∀ p ∈ s.waiting c, s.monitors.watch.lookup (c, p) = none
  past : (∃ p w, s.monitors.watch.lookup (c, p) = some w) ∨ (s.waiting c).Nonempty →
    PastConfig s.monitors.server c

section Phases

variable {s t : PortSystem} {a : PortSystem.Act} {c : ControllerId}

theorem PastConfig.step (hs : PastConfig s c) (h : s.step a = some t) : PastConfig t c := by
  by_cases hc : a.actor = c
  · subst hc
    obtain ⟨ctl₀, hctl₀, hphase₀⟩ := hs
    cases PortSystem.step_rel h with
    | fromServer d hnew => simp [PortSystem.Act.actor, hnew] at hctl₀
    | mainLoop d ctl event =>
        refine ⟨_, set_controllers_self _ _ _, ?_⟩
        cases event.ends <;> simp
    | cleanup d ctl => exact ⟨_, set_controllers_self _ _ _, by simp⟩
    | replied d ctl => exact ⟨_, set_controllers_self _ _ _, by simp⟩
    | acceptClient d ctl written hctl hphase | pushConfig d ctl ports interval hctl hphase
    | noConfig d ctl msg hmsg hctl hphase | reserve d ctl ports hctl hphase
    | replyFailed d ctl accepted success hctl hphase =>
        cases hctl.symm.trans hctl₀
        simp [hphase] at hphase₀
  · obtain ⟨ctl, hctl, hphase⟩ := hs
    exact ⟨ctl, by rw [step_controllers_of_ne h hc, hctl], hphase⟩

/-- A controller is not past `accept_config` when it is new. -/
theorem not_pastConfig_of_fromServer (h : s.step (.fromServer c) = some t) : ¬ PastConfig s c := by
  rintro ⟨ctl, hctl, -⟩
  cases PortSystem.step_rel h with
  | fromServer _ hnew => simp [hnew] at hctl

/-- The reply is the end of `accept_config`. -/
theorem pastConfig_of_reply (h : s.step (.reply c true) = some t) :
    ¬ PastConfig s c ∧ PastConfig t c := by
  cases PortSystem.step_rel h with
  | replied _ ctl accepted success hctl hphase =>
      refine ⟨?_, _, set_controllers_self _ _ _, by simp⟩
      rintro ⟨ctl₀, hctl₀, hphase₀⟩
      cases hctl.symm.trans hctl₀
      simp [hphase] at hphase₀

end Phases

/-! ## Steps of the system

A lemma for each kind of step, for the controller that it is about. Steps of other controllers and
of their monitors leave the account as it is. -/

section Steps

variable {s t : StartSystem} {c : ControllerId} {made seen : List (Port × MonitorReport)}

/-- A controller without monitors has been reported nothing. -/
theorem Accounted.fresh (hs : Accounted s c made seen) (h : ¬ PastConfig s.monitors.server c) :
    (∀ p w, s.monitors.watch.lookup (c, p) ≠ some w) ∧ made = [] ∧ seen = [] := by
  have hnone : ∀ p w, s.monitors.watch.lookup (c, p) ≠ some w := fun p w hw =>
    h (hs.past (Or.inl ⟨p, w, hw⟩))
  have hmade : made = [] := by
    refine List.eq_nil_iff_forall_not_mem.mpr fun r hr => ?_
    obtain ⟨w, hw, -⟩ := hs.watched r hr
    exact hnone r.1 w hw
  exact ⟨hnone, hmade, List.prefix_nil.mp (hmade ▸ hs.received)⟩

/-- A step that replaces the leader of the controller. -/
theorem Accounted.led (hs : Accounted s c made seen)
    (hwatch : ∀ p, t.monitors.watch.lookup (c, p) = s.monitors.watch.lookup (c, p))
    (hwaiting : t.waiting c = s.waiting c)
    (hpast : PastConfig s.monitors.server c → PastConfig t.monitors.server c)
    {seen' : List (Port × MonitorReport)} (hseen : seen' <+: made)
    (hqueue : ∀ l', t.monitors.leader c = some l' → made = seen' ++ l'.reports)
    (hemployed : ∀ l' p w, t.monitors.leader c = some l' →
      s.monitors.watch.lookup (c, p) = some w → l'.EmployedAs p p)
    (hregistered : ∀ l' p, t.monitors.leader c = some l' → (p ∈ l'.senders ↔
      (∃ w, s.monitors.watch.lookup (c, p) = some w) ∧ (p, .error) ∉ seen')) :
    Accounted t c made seen' := by
  refine ⟨hs.final, ?_, hseen, hqueue, ?_, ?_, ?_, ?_⟩
  · simpa only [hwatch] using hs.watched
  · simpa only [hwatch] using hemployed
  · simpa only [hwatch] using hregistered
  · simpa only [hwaiting, hwatch] using hs.waiting
  · simp only [hwaiting, hwatch]
    exact fun h => hpast (hs.past h)

/-- A step that changes nothing of the controller but its phase. -/
theorem Accounted.of_eq (hs : Accounted s c made seen)
    (hleader : t.monitors.leader c = s.monitors.leader c)
    (hwatch : ∀ p, t.monitors.watch.lookup (c, p) = s.monitors.watch.lookup (c, p))
    (hwaiting : t.waiting c = s.waiting c)
    (hpast : PastConfig s.monitors.server c → PastConfig t.monitors.server c) :
    Accounted t c made seen := by
  refine hs.led hwatch hwaiting hpast hs.received ?_ ?_ ?_
  · simpa only [hleader] using hs.queue
  · simpa only [hleader] using hs.employed
  · simpa only [hleader] using hs.registered

/-- A step of the controller, other than the reply and the handling of a report. -/
theorem Accounted.control (hs : Accounted s c made seen) {b : PortSystem.Act} {m : MonitorSystem}
    (h : s.monitors.control b = some m) (hb : b.actor = c) (hreply : ∀ d, b ≠ .reply d true) :
    Accounted { s with monitors := m } c made seen := by
  obtain ⟨hserver, heq⟩ := control_eq h
  have hwatch : ∀ p, m.watch.lookup (c, p) = s.monitors.watch.lookup (c, p) := by
    intro p
    rw [heq, follow_watch, if_neg fun hr => hreply c hr.1]
  have hpast : PastConfig s.monitors.server c → PastConfig m.server c := fun hp => hp.step hserver
  have hled := hs.led (t := { s with monitors := m }) hwatch rfl hpast hs.received
  have hleader := follow_leader_cases s.monitors m.server hreply
  rw [← heq, hb] at hleader
  rcases hleader with ⟨⟨d, rfl⟩, hl⟩ | hl | hl | hl
  · -- a new controller has no monitors, which have reported nothing
    obtain rfl : d = c := hb
    obtain ⟨hnone, rfl, rfl⟩ := hs.fresh (not_pastConfig_of_fromServer hserver)
    refine hled ?_ ?_ ?_
    · intro l' hl'
      cases hl.symm.trans hl'
      rfl
    · exact fun l' p w _ hw => absurd hw (hnone p w)
    · intro l' p hl'
      cases hl.symm.trans hl'
      simp [Chat.Leader.new, hnone]
  · refine hled ?_ ?_ ?_
    · intro l' hl'
      cases hl.symm.trans hl'
    · intro l' p w hl'
      cases hl.symm.trans hl'
    · intro l' p hl'
      cases hl.symm.trans hl'
  · exact hs.of_eq hl hwatch rfl hpast
  · -- the monitors are told to stop
    have hkeeps : ∀ l', m.leader c = some l' → ∃ l, s.monitors.leader c = some l ∧
        l'.senders = l.senders ∧ l'.reports = l.reports ∧
          ∀ h id, l.EmployedAs h id → l'.EmployedAs h id := by
      intro l' hl'
      obtain ⟨l, hlc, rfl⟩ := Option.map_eq_some_iff.mp (hl.symm.trans hl')
      exact ⟨l, hlc, l.broadcast_keeps ()⟩
    refine hled ?_ ?_ ?_
    · intro l' hl'
      obtain ⟨l, hlc, -, hreports, -⟩ := hkeeps l' hl'
      rw [hreports]
      exact hs.queue l hlc
    · intro l' p w hl' hw
      obtain ⟨l, hlc, -, -, hemployed⟩ := hkeeps l' hl'
      exact hemployed p p (hs.employed l p w hlc hw)
    · intro l' p hl'
      obtain ⟨l, hlc, hsenders, -⟩ := hkeeps l' hl'
      rw [hsenders]
      exact hs.registered l p hlc

/-- **An error that is received is the error of a monitor that is still registered.** -/
theorem Accounted.mem_senders (hs : Accounted s c made seen) {l l' : MonitorLeader} {p : Port}
    (hl : s.monitors.leader c = some l) (hr : l.receive = some ((p, .error), l')) :
    p ∈ l'.senders := by
  obtain ⟨hreports, hsenders, -⟩ := Chat.Leader.receive_eq_some hr
  have hmade : made = seen ++ (p, .error) :: l'.reports := by rw [hs.queue l hl, hreports]
  have hfinal : Final (· = .error) (seen ++ (p, .error) :: l'.reports) := hmade ▸ hs.final
  have hfirst : (p, .error) ∉ seen := (hfinal.split rfl).1 _ rfl
  obtain ⟨w, hw, -⟩ := hs.watched (p, .error) (by rw [hmade]; simp)
  rw [hsenders]
  exact (hs.registered l p hl).mpr ⟨⟨w, hw⟩, hfirst⟩

/-- The controller receives a report, and fires the monitor of an error. -/
theorem Accounted.receive (hs : Accounted s c made seen) {l l' l'' : MonitorLeader}
    {r : Port × MonitorReport} (hl : s.monitors.leader c = some l) (hr : l.receive = some (r, l'))
    (hfired : r.2 ≠ .error ∧ l'' = l' ∨ r.2 = .error ∧ l'.fired r.1 = some l'') :
    Accounted { s with monitors := s.monitors.setLeader c (some l'') } c made (seen ++ [r]) := by
  obtain ⟨hreports, hsenders, hemployees⟩ := Chat.Leader.receive_eq_some hr
  have hmade : made = (seen ++ [r]) ++ l'.reports := by
    rw [hs.queue l hl, hreports, List.append_assoc, List.singleton_append]
  have hself : ∀ {l₁}, (s.monitors.setLeader c (some l'')).leader c = some l₁ → l'' = l₁ :=
    fun hl₁ => Option.some.inj ((setLeader_leader_self _ _ _).symm.trans hl₁)
  refine hs.led (t := { s with monitors := s.monitors.setLeader c (some l'') }) (fun _ => rfl) rfl id
    ⟨_, hmade.symm⟩ ?_ ?_ ?_
  · intro l₁ hl₁
    obtain rfl := hself hl₁
    rcases hfired with ⟨-, rfl⟩ | ⟨-, hfired⟩
    · exact hmade
    · rw [(Chat.Leader.fired_eq_some hfired).2.2]
      exact hmade
  · intro l₁ p w hl₁ hw
    obtain rfl := hself hl₁
    have hp : l.EmployedAs p p := hs.employed l p w hl hw
    rcases hfired with ⟨-, rfl⟩ | ⟨-, hfired⟩
    · exact hp.of_eq hemployees
    · exact hp.of_eq ((Chat.Leader.fired_eq_some hfired).2.1.trans hemployees)
  · intro l₁ p hl₁
    obtain rfl := hself hl₁
    rcases hfired with ⟨hother, rfl⟩ | ⟨herror, hfired⟩
    · have hne : (p, MonitorReport.error) ≠ r := fun heq => hother (heq ▸ rfl)
      rw [hsenders, hs.registered l p hl]
      simp [hne]
    · -- the port that is fired is the port of the error
      obtain ⟨q, msg⟩ := r
      obtain rfl : msg = .error := herror
      have hmem : (p, .error) ∈ seen ++ [(q, .error)] ↔ (p, .error) ∈ seen ∨ p = q := by simp
      rw [(Chat.Leader.fired_eq_some hfired).1, hsenders, AList.mem_erase, hs.registered l p hl, hmem,
        not_or]
      constructor
      · rintro ⟨hne, hw, hnot⟩
        exact ⟨hw, hnot, hne⟩
      · rintro ⟨hw, hnot, hne⟩
        exact ⟨hne, hw, hnot⟩

/-- The controller handles a report, and the unwrap of `fired` succeeds. -/
theorem Accounted.handle (hs : Accounted s c made seen) {l l' : MonitorLeader}
    {r : Port × MonitorReport} {written : Bool} {m : MonitorSystem}
    (hl : s.monitors.leader c = some l) (hr : l.receive = some (r, l'))
    (hnew : (s.monitors.setLeader c (some l')).newChannel c r.1 written r.2 = some m) :
    Accounted { s with monitors := m } c made (seen ++ [r]) ∧ m.panicked = s.monitors.panicked := by
  obtain ⟨p, msg⟩ := r
  by_cases herror : msg = .error
  · subst herror
    obtain ⟨l'', hfired, heq⟩ :=
      newChannel_error (setLeader_leader_self s.monitors c (some l')) (hs.mem_senders hl hr) written
    have htwice : (s.monitors.setLeader c (some l')).setLeader c (some l'')
        = s.monitors.setLeader c (some l'') := by simp [setLeader]
    rw [heq, htwice] at hnew
    have hpanicked := control_panicked hnew (by simp)
    exact ⟨(hs.receive hl hr (Or.inr ⟨rfl, hfired⟩)).control hnew rfl (by simp), hpanicked⟩
  · rcases newChannel_cases hnew with ⟨-, hmain⟩ | ⟨-, -, herr, -⟩ | ⟨herr, -⟩
    · have hpanicked := control_panicked hmain (by simp)
      exact ⟨(hs.receive hl hr (Or.inl ⟨herror, rfl⟩)).control hmain rfl (by simp), hpanicked⟩
    · exact absurd herr herror
    · exact absurd herr herror

/-- The body of the loop of `start_monitors`. -/
theorem Accounted.start (hs : Accounted s c made seen) {p : Port} (hp : p ∈ s.waiting c) :
    Accounted ⟨s.monitors.startMonitor c p, Function.update s.waiting c ((s.waiting c).erase p)⟩ c
      made seen := by
  have hself : (s.monitors.watch.insert (c, p) .spawn).lookup (c, p) = some .spawn :=
    AList.lookup_insert _
  have hother : ∀ {q}, q ≠ p → (s.monitors.watch.insert (c, p) .spawn).lookup (c, q)
      = s.monitors.watch.lookup (c, q) := lookup_insert_of_ne s.monitors.watch .spawn
  have hleader : ∀ {l'}, (s.monitors.startMonitor c p).leader c = some l' →
      ∃ l, s.monitors.leader c = some l ∧ l.hire p p = l' := fun hl' =>
    Option.map_eq_some_iff.mp ((setLeader_leader_self _ _ _).symm.trans hl')
  -- the port has had no monitor, so nothing has been reported for it
  have hold : ∀ r ∈ made, r.1 ≠ p := by
    rintro r hr rfl
    obtain ⟨w, hw, -⟩ := hs.watched r hr
    cases (hs.waiting _ hp).symm.trans hw
  have hpast : PastConfig s.monitors.server c := hs.past (Or.inr ⟨p, hp⟩)
  refine ⟨hs.final, ?_, hs.received, ?_, ?_, ?_, ?_, fun _ => hpast⟩
  · intro r hr
    obtain ⟨w, hw, hended⟩ := hs.watched r hr
    exact ⟨w, (hother (hold r hr)).trans hw, hended⟩
  · intro l' hl'
    obtain ⟨l, hl, rfl⟩ := hleader hl'
    exact hs.queue l hl
  · intro l' q w hl' hw
    obtain ⟨l, hl, rfl⟩ := hleader hl'
    rcases lookup_insert_cases hw with ⟨rfl, -⟩ | ⟨hq, hw⟩
    · exact l.hire_employedAs q q
    · exact (hs.employed l q w hl hw).hire p hq
  · intro l' q hl'
    obtain ⟨l, hl, rfl⟩ := hleader hl'
    rw [Chat.Leader.mem_hire_senders, hs.registered l q hl]
    by_cases hq : q = p
    · subst hq
      have hnot : (q, .error) ∉ seen := fun hmem => hold _ (hs.received.subset hmem) rfl
      exact iff_of_true (Or.inl rfl) ⟨⟨_, hself⟩, hnot⟩
    · show _ ↔ (∃ w, (s.monitors.watch.insert (c, p) .spawn).lookup (c, q) = some w) ∧ _
      rw [hother hq, or_iff_right hq]
  · intro q hq
    simp only [Function.update_self, Finset.mem_erase] at hq
    obtain ⟨hne, hq⟩ := hq
    exact (hother hne).trans (hs.waiting q hq)

/-- What the leader has after a step of a monitor. -/
theorem Accounted.heard (hs : Accounted s c made seen) {p : Port} {w w' : Watch}
    {leader' : Option MonitorLeader} {msgs : List MonitorReport}
    (hw : s.monitors.watch.lookup (c, p) = some w)
    (hstep : Watch.Reported (s.monitors.leader c) leader' p w w' msgs) {l' : MonitorLeader}
    (hl' : leader' = some l') : ∃ l, s.monitors.leader c = some l ∧ Watch.Heard l l' p msgs := by
  rcases hl : s.monitors.leader c with _ | l
  · rw [hstep.gone hl] at hl'
    cases hl'
  · obtain ⟨l₁, hl₁, hheard⟩ := hstep.heard l hl (hs.employed l p w hl hw)
    cases hl'.symm.trans hl₁
    exact ⟨l, rfl, hheard⟩

/-- A step of a monitor. -/
theorem Accounted.monitor (hs : Accounted s c made seen) {p : Port} {b : Watch.Act} {w : Watch}
    {r : Watch × Option MonitorLeader} (hw : s.monitors.watch.lookup (c, p) = some w)
    (hr : w.step (s.monitors.leader c) (s.monitors.free p) p b = some r) :
    Accounted { s with monitors := { s.monitors.setLeader c r.2 with
      watch := s.monitors.watch.insert (c, p) r.1 } } c
      (made ++ (w.reports (s.monitors.leader c) p b).map (p, ·)) seen := by
  have hself : (s.monitors.watch.insert (c, p) r.1).lookup (c, p) = some r.1 :=
    AList.lookup_insert _
  have hother : ∀ {q}, q ≠ p → (s.monitors.watch.insert (c, p) r.1).lookup (c, q)
      = s.monitors.watch.lookup (c, q) := lookup_insert_of_ne s.monitors.watch r.1
  have hstep := Watch.step_reported hr
  have hheard : ∀ {l'}, (s.monitors.setLeader c r.2).leader c = some l' →
      ∃ l, s.monitors.leader c = some l ∧
        Watch.Heard l l' p (w.reports (s.monitors.leader c) p b) := fun hl' =>
    hs.heard hw hstep ((setLeader_leader_self _ _ _).symm.trans hl')
  refine ⟨?_, ?_, hs.received.trans (List.prefix_append _ _), ?_, ?_, ?_, ?_, ?_⟩
  · refine hs.final.append hstep.last fun hsome err herr hmem => ?_
    -- a monitor that has reported its error has ended
    obtain ⟨w', hw', hended⟩ := hs.watched (p, err) hmem
    cases hw.symm.trans hw'
    exact hsome (hstep.silent (hended herr)).1
  · intro m hm
    rcases List.mem_append.mp hm with hm | hm
    · obtain ⟨w', hw', hended⟩ := hs.watched m hm
      by_cases hq : m.1 = p
      · rw [hq] at hw' ⊢
        cases hw.symm.trans hw'
        exact ⟨r.1, hself, fun herror => (hstep.silent (hended herror)).2⟩
      · exact ⟨w', (hother hq).trans hw', hended⟩
    · obtain ⟨msg, hmsg, rfl⟩ := List.mem_map.mp hm
      refine ⟨r.1, hself, ?_⟩
      rintro rfl
      exact hstep.ends hmsg
  · intro l' hl'
    obtain ⟨l, hl, hheard⟩ := hheard hl'
    rw [hheard.reports, hs.queue l hl, List.append_assoc]
  · intro l' q w' hl' hw'
    obtain ⟨l, hl, hheard⟩ := hheard hl'
    obtain ⟨w₀, hw₀⟩ := (exists_lookup_insert hw r.1 q).mp ⟨w', hw'⟩
    exact hheard.employed q (hs.employed l q w₀ hl hw₀)
  · intro l' q hl'
    obtain ⟨l, hl, hheard⟩ := hheard hl'
    rw [hheard.senders, hs.registered l q hl]
    exact and_congr_left' (exists_lookup_insert hw r.1 q).symm
  · intro q hq
    have hnone := hs.waiting q hq
    have hne : q ≠ p := by
      rintro rfl
      cases hw.symm.trans hnone
    exact (hother hne).trans hnone
  · exact fun _ => hs.past (Or.inl ⟨p, w, hw⟩)

/-- `start_monitors` begins, and none of its ports has a monitor. -/
theorem Accounted.reply (hs : Accounted s c made seen) {server : PortSystem}
    (h : s.monitors.server.step (.reply c true) = some server)
    (waiting : ControllerId → Finset Port) :
    Accounted ⟨{ s.monitors with server := server }, waiting⟩ c made seen := by
  obtain ⟨hbefore, hafter⟩ := pastConfig_of_reply h
  have hnone : ∀ p, s.monitors.watch.lookup (c, p) = none := fun p =>
    Option.eq_none_iff_forall_ne_some.mpr ((hs.fresh hbefore).1 p)
  exact ⟨hs.final, hs.watched, hs.received, hs.queue, hs.employed, hs.registered,
    fun p _ => hnone p, fun _ => hafter⟩

theorem outputs_of_ne {a : MonitorSystem.Act} (hc : a.controller ≠ c) :
    reportsOf c s (.system a) = [] ∧ receivedOf c s (.system a) = [] := by
  cases a with
  | control b => exact ⟨rfl, rfl⟩
  | handle d written => exact ⟨rfl, if_neg hc⟩
  | monitor d p b => exact ⟨if_neg hc, rfl⟩

/-- **A step keeps the account of the reports of a controller.** -/
theorem Accounted.step (hs : Accounted s c made seen) {a : Act} (h : s.step a = some t) :
    Accounted t c (made ++ reportsOf c s a) (seen ++ receivedOf c s a) := by
  cases step_rel h with
  | system a m hreply hreturned hstep =>
      by_cases hc : a.controller = c
      · rcases MonitorSystem.step_cases hstep with ⟨b, rfl, hb⟩ |
          ⟨d, written, l, l', r, rfl, -, hl, hr, hnew⟩ | ⟨d, p, b, w, r, rfl, hw, hr, rfl⟩
        · have hnot : ∀ d, b ≠ .reply d true := fun d heq => hreply d (by rw [heq])
          simpa [reportsOf, receivedOf] using hs.control hb hc hnot
        · obtain rfl : d = c := hc
          simpa [reportsOf, receivedOf, hl, hr] using (hs.handle hl hr hnew).1
        · obtain rfl : d = c := hc
          simpa [reportsOf, receivedOf, hw] using hs.monitor hw hr
      · obtain ⟨hctl, hleader, hwatch⟩ := step_frame hstep hc
        obtain ⟨hmade, hseen⟩ := outputs_of_ne (s := s) hc
        rw [hmade, hseen, List.append_nil, List.append_nil]
        refine hs.of_eq hleader hwatch rfl ?_
        rintro ⟨ctl, hold, hphase⟩
        exact ⟨ctl, hctl.trans hold, hphase⟩
  | reply d server hstep =>
      have hkeep : Accounted ⟨{ s.monitors with server := server },
          Function.update s.waiting d (granted s.monitors.server d).toFinset⟩ c made seen := by
        by_cases hd : d = c
        · subst hd
          exact hs.reply hstep _
        · exact hs.of_eq rfl (fun _ => rfl) (Function.update_of_ne (Ne.symm hd) _ _)
            fun hp => hp.step hstep
      simpa [reportsOf, receivedOf] using hkeep
  | start d p hp =>
      have hkeep : Accounted ⟨s.monitors.startMonitor d p,
          Function.update s.waiting d ((s.waiting d).erase p)⟩ c made seen := by
        by_cases hd : d = c
        · subst hd
          exact hs.start hp
        · refine hs.of_eq (setLeader_leader_of_ne _ _ (Ne.symm hd)) (fun q => ?_)
            (Function.update_of_ne (Ne.symm hd) _ _) id
          exact AList.lookup_insert_ne fun hpair => hd (congrArg Prod.fst hpair).symm
      simpa [reportsOf, receivedOf] using hkeep

/-- **No step panics.** -/
theorem step_panicked {a : Act} (h : s.step a = some t)
    (hs : ∀ c, ∃ made seen, Accounted s c made seen) : t.monitors.panicked = s.monitors.panicked := by
  cases step_rel h with
  | system a m hreply hreturned hstep =>
      rcases MonitorSystem.step_cases hstep with ⟨b, rfl, hb⟩ |
        ⟨d, written, l, l', r, rfl, -, hl, hr, hnew⟩ | ⟨d, p, b, w, r, rfl, hw, hr, rfl⟩
      · exact control_panicked hb fun d heq => hreply d (by rw [heq])
      · obtain ⟨made, seen, hd⟩ := hs d
        exact (hd.handle hl hr hnew).2
      · rfl
  | reply d server hstep => rfl
  | start d p hp => rfl

end Steps

/-! ## The runs

The account holds in all runs, also in those in which monitors fail and are fired while
`start_monitors` is still starting the others. The runs of `MonitorSystem` are among them. -/

theorem accounted_init (c : ControllerId) : Accounted init c [] [] where
  final := .nil
  watched := by simp
  received := List.prefix_rfl
  queue l hl := by cases hl
  employed l p w hl := by cases hl
  registered l p hl := by cases hl
  waiting p hp := by cases hp
  past := by
    rintro (⟨p, w, hw⟩ | ⟨p, hp⟩)
    · cases hw
    · cases hp

theorem accounted_of_run {acts : List Act} {s : StartSystem} (hrun : run step init acts = some s)
    (c : ControllerId) : Accounted s c (reported c acts) (received c acts) := by
  have hinit : Accounted init c (reported c []) (received c []) := accounted_init c
  refine run_induction (P := fun s done => Accounted s c (reported c done) (received c done))
    hinit ?_ hrun
  intro done s a t hdone hs hstep
  have hmade : reported c (done ++ [a]) = reported c done ++ reportsOf c s a := outputs_concat hdone
  have hseen : received c (done ++ [a]) = received c done ++ receivedOf c s a := outputs_concat hdone
  rw [hmade, hseen]
  exact hs.step hstep

theorem not_panicked {s : StartSystem} (h : Reaches step init s) : s.monitors.panicked = false := by
  have hall : (∀ c, ∃ made seen, Accounted s c made seen) ∧ s.monitors.panicked = false := by
    refine run_invariant (P := fun s => (∀ c, ∃ made seen, Accounted s c made seen) ∧
      s.monitors.panicked = false) ?_ ⟨fun c => ⟨[], [], accounted_init c⟩, rfl⟩ h
    rintro s a t ⟨hs, hnot⟩ hstep
    refine ⟨fun c => ?_, (step_panicked hstep hs).trans hnot⟩
    obtain ⟨made, seen, hc⟩ := hs c
    exact ⟨_, _, hc.step hstep⟩
  exact hall.2

/-- The same when `start_monitors` is not interrupted. -/
theorem monitors_not_panicked {m : MonitorSystem} (h : Reaches MonitorSystem.step .init m) :
    m.panicked = false := not_panicked (reaches_of_reaches h)

/-- What the monitors of a controller report is received in this order, and waits in its queue until
then. -/
theorem reported_eq {acts : List Act} {s : StartSystem} (hrun : run step init acts = some s)
    {c : ControllerId} {l : MonitorLeader} (hl : s.monitors.leader c = some l) :
    reported c acts = received c acts ++ l.reports := (accounted_of_run hrun c).queue l hl

/-- **The table of the leader**: a port is registered from the start of its monitor until its error
is received. -/
theorem mem_senders_iff {acts : List Act} {s : StartSystem} (hrun : run step init acts = some s)
    {c : ControllerId} {l : MonitorLeader} (hl : s.monitors.leader c = some l) (p : Port) :
    p ∈ l.senders ↔
      (∃ w, s.monitors.watch.lookup (c, p) = some w) ∧ (p, .error) ∉ received c acts :=
  (accounted_of_run hrun c).registered l p hl

/-- **Firing a monitor never panics.** In every run a monitor reports at most one error, which is the
last of its reports, and its port is registered when the controller comes to receive that error. -/
theorem fired_never_panics {acts : List Act} {s : StartSystem} (hrun : run step init acts = some s) :
    s.monitors.panicked = false ∧ ∀ c p,
      (reported c acts).count (p, .error) ≤ 1 ∧
      (∀ front rest, reported c acts = front ++ (p, .error) :: rest → ∀ msg, (p, msg) ∉ rest) ∧
      ∀ l l', s.monitors.leader c = some l → l.receive = some ((p, .error), l') →
        p ∈ l'.senders ∧ ∃ l'', l'.fired p = some l'' := by
  refine ⟨not_panicked ⟨acts, hrun⟩, fun c p => ?_⟩
  have hs := accounted_of_run hrun c
  refine ⟨hs.final.count_le_one rfl, ?_, ?_⟩
  · intro front rest heq
    have hfinal : Final (· = .error) (front ++ (p, .error) :: rest) := heq ▸ hs.final
    exact (hfinal.split rfl).2
  · intro l l' hl hr
    have hp : p ∈ l'.senders := hs.mem_senders hl hr
    exact ⟨hp, _, if_pos hp⟩

/-- The monitor of a TCP port fails to bind before the monitor of the other port is hired. -/
def failsFirst : List Act :=
  twoPorts.map .system ++ [.start 0 ⟨80, .tcp⟩, .system (.monitor 0 ⟨80, .tcp⟩ (.bind false)),
    .start 0 ⟨53, .udp⟩]

/-- Its error is the one the controller receives first. -/
theorem fired_never_panics_failsFirst : ∃ s l l', run step init failsFirst = some s ∧
    s.monitors.leader 0 = some l ∧ l.receive = some ((⟨80, .tcp⟩, .error), l') ∧
      ⟨80, .tcp⟩ ∈ l'.senders := by
  have hrun : ∃ s l l', run step init failsFirst = some s ∧ s.monitors.leader 0 = some l ∧
      l.receive = some ((⟨80, .tcp⟩, .error), l') := ⟨_, _, _, rfl, rfl, rfl⟩
  obtain ⟨s, l, l', hrun, hl, hr⟩ := hrun
  exact ⟨s, l, l', hrun, hl, hr, (((fired_never_panics hrun).2 0 ⟨80, .tcp⟩).2.2 l l' hl hr).1⟩

end StartSystem

end Rslinker
