import Rslinker.System.ClientScript
import Rslinker.System.ServerScript

set_option autoImplicit false

/-! # Both sides keep to the script

The client's side (`ClientSide`) and the server's side (`ServerSide`) of every control session are
invariants of the system. Together they leave a serving client only announcements of ports that its
controller has granted, which are those the client has kept: neither `todo!()` nor `id.unwrap()` is
ever reached, and every announcement finds its link.

The two scripts are proved one by one, each with the other side's messages as they happen to come.
Only at the end are they put together: what the server may have sent is what the client has to be
able to read.
-/

namespace Rslinker

open Controller

/-! ## The invariant of the server

The mirror image of `ClientSide`: for the controller of every connection, what it has received are
the first messages of the client, what it has sent follows its script, and its monitors listen on
the ports it has granted. -/

/-- What the server has received and sent, in the whole world. -/
structure ServerSide (s : Traced) : Prop where
  unserved : ∀ q, s.world.served q = false → s.sentUp q = s.world.up q
  unheld : ∀ q, (∀ c, s.world.reg.sessions c ≠ some q) → s.sentDown q = []
  sessions : ∀ c q, s.world.reg.sessions c = some q → ∃ ctl, s.world.server.controllers c = some ctl ∧
    ctl.Follows c (s.sentUp q) (s.world.up q) (s.sentDown q)
  listens : ∀ c ctl, s.world.server.controllers c = some ctl → ctl.ListensOnPorts
  reports : ∀ c, ∀ e ∈ s.world.reports c,
    ∃ ctl, s.world.server.controllers c = some ctl ∧ e.1 ∈ ctl.ports

theorem serverSide_init : ServerSide .init where
  unserved _ _ := rfl
  unheld _ _ := rfl
  sessions _ _ h := by cases h
  listens _ _ h := by cases h
  reports _ _ h := by cases h

namespace ServerSide

open World

variable {s : Traced} {w : World}

/-- Steps of the clients keep it. -/
theorem clientEffect (h : ServerSide s) (heffect : ClientEffect s.world w) :
    ServerSide (s.after w) := by
  have hdown : ∀ q, (s.after w).sentDown q = s.sentDown q := fun q =>
    Traced.sentDown_after_of_suffix (heffect.down q)
  refine ⟨fun q hq => ?_, fun q hq => ?_, fun c q hq => ?_, fun c ctl hctl => ?_, fun c e he => ?_⟩
  · obtain ⟨more, hmore⟩ := heffect.up q
    have hold : s.world.served q = false := (congrFun heffect.served q).symm.trans hq
    rw [Traced.sentUp_after_of_push hmore.symm, h.unserved q hold]
    exact hmore
  · rw [hdown]
    exact h.unheld q fun c hc => hq c ((congrFun heffect.sessions c).trans hc)
  · obtain ⟨ctl, hctl, hfollows⟩ := h.sessions c q ((congrFun heffect.sessions c).symm.trans hq)
    obtain ⟨more, hmore⟩ := heffect.up q
    refine ⟨ctl, by rwa [show (s.after w).world.server = _ from heffect.server], ?_⟩
    rw [Traced.sentUp_after_of_push hmore.symm, hdown, show (s.after w).world.up = w.up from rfl,
      ← hmore]
    exact hfollows.push more
  · rw [show (s.after w).world.server = _ from heffect.server] at hctl
    exact h.listens c ctl hctl
  · rw [show (s.after w).world.reports = _ from heffect.reports] at he
    rw [show (s.after w).world.server = _ from heffect.server]
    exact h.reports c e he

/-- A step of the controller `c`, whose connection is `q`. -/
theorem sessionStep (h : ServerSide s) (hl : s.world.Labelled) {c : ControllerId} {q : ConnId}
    {a : ControllerAct} (hsession : s.world.reg.sessions c = some q)
    (hw : s.world.sessionStep c q a = some w) : ServerSide (s.after w) := by
  obtain ⟨ctl, hctl, hfollows⟩ := h.sessions c q hsession
  have hreports : ∀ e ∈ s.world.reports c, e.1 ∈ ctl.ports := by
    intro e he
    obtain ⟨ctl', hctl', hport⟩ := h.reports c e he
    rwa [Option.some.inj (hctl.symm.trans hctl')]
  obtain ⟨heffect, b, more, hstep, hio, hdown⟩ := sessionStep_exchange hctl hreports hw
  obtain ⟨ctl', hcontrollers, hfollows', hports, hlistens⟩ :=
    hfollows.step (h.listens c ctl hctl) hctl hstep hio
  have hup : ∀ q', (s.after w).sentUp q' = s.sentUp q' := fun q' =>
    Traced.sentUp_after_of_suffix ((sessionStep_effect hw).up q')
  have hsent : ∀ q' ≠ q, (s.after w).sentDown q' = s.sentDown q' := fun q' hne =>
    Traced.sentDown_after_of_suffix ((heffect.others q' hne).2 ▸ List.suffix_rfl)
  have hself : w.server.controllers c = some ctl' := by
    rw [hcontrollers, Function.update_self]
  have hold : ∀ c' ≠ c, w.server.controllers c' = s.world.server.controllers c' := fun c' hne => by
    rw [hcontrollers, Function.update_of_ne hne]
  refine ⟨fun q' hq' => ?_, fun q' hq' => ?_, fun c' q' hq' => ?_, fun c' ctl₁ hctl₁ => ?_,
    fun c' e he => ?_⟩
  · -- the connection of a controller has been served
    have hserved : s.world.served q' = false := (congrFun heffect.served q').symm.trans hq'
    have hne : q' ≠ q := by
      rintro rfl
      rw [hl.served c q' hsession] at hserved
      cases hserved
    rw [hup, show (s.after w).world.up q' = _ from (heffect.others q' hne).1]
    exact h.unserved q' hserved
  · have hfree : ∀ c', s.world.reg.sessions c' ≠ some q' := fun c' hc' =>
      hq' c' ((congrFun heffect.sessions c').trans hc')
    have hne : q' ≠ q := by
      rintro rfl
      exact hfree c hsession
    rw [hsent q' hne]
    exact h.unheld q' hfree
  · have hq₀ : s.world.reg.sessions c' = some q' := (congrFun heffect.sessions c').symm.trans hq'
    by_cases hc : c' = c
    · subst hc
      obtain rfl : q = q' := Option.some.inj (hsession.symm.trans hq₀)
      refine ⟨ctl', hself, ?_⟩
      rw [hup, Traced.sentDown_after_of_push hdown]
      exact hfollows'
    · -- another controller has another connection
      have hne : q' ≠ q := by
        rintro rfl
        exact hc (hl.sound.sessions c' c q' hq₀ hsession)
      rw [hup, hsent q' hne, show (s.after w).world.up q' = _ from (heffect.others q' hne).1,
        show (s.after w).world.server.controllers c' = _ from hold c' hc]
      exact h.sessions c' q' hq₀
  · by_cases hc : c' = c
    · subst hc
      obtain rfl : ctl' = ctl₁ := Option.some.inj (hself.symm.trans hctl₁)
      exact hlistens
    · exact h.listens c' ctl₁ ((hold c' hc).symm.trans hctl₁)
  · obtain ⟨ctl₁, hctl₁, hport⟩ := h.reports c' e (heffect.reports c' he)
    by_cases hc : c' = c
    · subst hc
      obtain rfl : ctl = ctl₁ := Option.some.inj (hctl.symm.trans hctl₁)
      exact ⟨ctl', hself, hports hport⟩
    · exact ⟨ctl₁, (hold c' hc).trans hctl₁, hport⟩

/-- A step that reaches no control session: it may take the first message of a connection nobody has
served, and may add reports of ports the controllers have. -/
theorem quietStep (h : ServerSide s) (hl : s.world.Labelled)
    (hsessions : w.reg.sessions = s.world.reg.sessions)
    (hserver : w.server = s.world.server) (hdown : w.down = s.world.down)
    (hserved : ∀ q, w.served q = false → s.world.served q = false ∧ w.up q = s.world.up q)
    (hup : ∀ q, s.world.served q = true → w.up q = s.world.up q)
    (hsuffix : ∀ q, w.up q <:+ s.world.up q)
    (hreports : ∀ c, ∀ e ∈ w.reports c, e ∈ s.world.reports c ∨
      ∃ ctl, s.world.server.controllers c = some ctl ∧ e.1 ∈ ctl.ports) : ServerSide (s.after w) := by
  have hsentUp : ∀ q, (s.after w).sentUp q = s.sentUp q := fun q =>
    Traced.sentUp_after_of_suffix (hsuffix q)
  have hsentDown : ∀ q, (s.after w).sentDown q = s.sentDown q := fun q =>
    Traced.sentDown_after_of_suffix (by rw [hdown])
  refine ⟨fun q hq => ?_, fun q hq => ?_, fun c q hq => ?_, fun c ctl hctl => ?_, fun c e he => ?_⟩
  · obtain ⟨hold, hkeep⟩ := hserved q hq
    rw [hsentUp, show (s.after w).world.up q = _ from hkeep]
    exact h.unserved q hold
  · rw [hsentDown]
    exact h.unheld q fun c hc => hq c ((congrFun hsessions c).trans hc)
  · have hold : s.world.reg.sessions c = some q := (congrFun hsessions c).symm.trans hq
    rw [hsentUp, hsentDown, show (s.after w).world.up q = _ from hup q (hl.served c q hold),
      show (s.after w).world.server = _ from hserver]
    exact h.sessions c q hold
  · rw [show (s.after w).world.server = _ from hserver] at hctl
    exact h.listens c ctl hctl
  · rw [show (s.after w).world.server = _ from hserver]
    rcases hreports c e he with hold | hnew
    · exact h.reports c e hold
    · exact hnew

/-- The first message of a connection is taken. -/
theorem serveStep (h : ServerSide s) (hl : s.world.Labelled) {q : ConnId}
    (hq : s.world.served q = false) : ServerSide (s.after ((s.world.dropUp q).serve q)) := by
  refine h.quietStep hl rfl rfl rfl ?_ ?_ (fun _ => suffix_update_pop) (fun _ _ he => Or.inl he)
  · intro q' hq'
    have hne : q' ≠ q := by
      rintro rfl
      rw [show World.served _ q' = true from Function.update_self ..] at hq'
      cases hq'
    exact ⟨(Function.update_of_ne hne _ _).symm.trans hq', Function.update_of_ne hne _ _⟩
  · intro q' hq'
    have hne : q' ≠ q := by
      rintro rfl
      rw [hq] at hq'
      cases hq'
    exact Function.update_of_ne hne _ _

/-- A controller starts on a connection whose first message was `NewClient`. -/
theorem newController (h : ServerSide s) {c : ControllerId} {q : ConnId}
    (hfree : ∀ c', s.world.reg.sessions c' ≠ some q)
    (hfirst : s.sentUp q = .newClient :: s.world.up q)
    (hw : s.world.newController c q = some w) : ServerSide (s.after w) := by
  obtain ⟨hfresh, hw⟩ := Option.ite_none_right_eq_some.mp hw
  obtain ⟨server, hserver, hw⟩ := Option.map_eq_some_iff.mp hw
  have hup : ∀ q', (s.after w).sentUp q' = s.sentUp q' := fun q' =>
    Traced.sentUp_after_of_suffix (by rw [← hw])
  have hdown : ∀ q', (s.after w).sentDown q' = s.sentDown q' := fun q' =>
    Traced.sentDown_after_of_suffix (by rw [← hw])
  subst hw
  have hcontrollers : s.world.server.controllers c = none ∧
      server.controllers = Function.update s.world.server.controllers c (some fromServer) := by
    cases PortSystem.step_rel hserver with
    | fromServer _ hnew => exact ⟨hnew, rfl⟩
  obtain ⟨hnew, hcontrollers⟩ := hcontrollers
  have hself : server.controllers c = some fromServer := by
    rw [hcontrollers, Function.update_self]
  have hold : ∀ c' ≠ c, server.controllers c' = s.world.server.controllers c' := fun c' hne => by
    rw [hcontrollers, Function.update_of_ne hne]
  refine ⟨fun q' hq' => ?_, fun q' hq' => ?_, fun c' q' hq' => ?_, fun c' ctl hctl => ?_,
    fun c' e he => ?_⟩
  · rw [hup]
    exact h.unserved q' hq'
  · rw [hdown]
    exact h.unheld q' fun c' hc' => hq' c' ((Registry.le_sessions hfresh).sessions c' q' hc')
  · rw [hup, hdown]
    rcases record_eq_some hq' with ⟨rfl, rfl⟩ | hq₀
    · refine ⟨fromServer, hself, hfirst, h.unheld q' hfree, rfl, rfl⟩
    · have hne : c' ≠ c := by
        rintro rfl
        rw [hfresh] at hq₀
        cases hq₀
      obtain ⟨ctl, hctl, hfollows⟩ := h.sessions c' q' hq₀
      exact ⟨ctl, (hold c' hne).trans hctl, hfollows⟩
  · by_cases hc : c' = c
    · subst hc
      obtain rfl : fromServer = ctl := Option.some.inj (hself.symm.trans hctl)
      intro p hp
      cases hp
    · exact h.listens c' ctl ((hold c' hc).symm.trans hctl)
  · obtain ⟨ctl, hctl, hport⟩ := h.reports c' e he
    have hne : c' ≠ c := by
      rintro rfl
      rw [hnew] at hctl
      cases hctl
    exact ⟨ctl, (hold c' hne).trans hctl, hport⟩

theorem serverStep (h : ServerSide s) (hl : s.world.Labelled) {a : ServerAct}
    (hw : s.world.serverStep a = some w) : ServerSide (s.after w) := by
  cases a with
  | onNewConnection q fresh =>
      obtain ⟨⟨-, hq⟩, hw⟩ := Option.ite_none_right_eq_some.mp hw
      have hserve := h.serveStep hl hq
      split at hw
      · cases hw
      · -- a new controller, on a connection that had none
        rename_i rest hup
        have hqueues : w.up = (s.world.dropUp q).up ∧ w.down = s.world.down := by
          obtain ⟨-, hw⟩ := Option.ite_none_right_eq_some.mp hw
          obtain ⟨server, -, rfl⟩ := Option.map_eq_some_iff.mp hw
          exact ⟨rfl, rfl⟩
        rw [← Traced.after_after (u := (s.world.dropUp q).serve q) hqueues.1 hqueues.2]
        refine hserve.newController ?_ ?_ hw
        · intro c hc
          rw [hl.served c q hc] at hq
          cases hq
        · rw [Traced.sentUp_after_of_suffix suffix_update_pop, h.unserved q hq, hup]
          show _ = _ :: (s.world.dropUp q).up q
          rw [dropUp_up hup]
      · cases hw
        unfold sendTo
        split
        · split
          · exact hserve
          · exact { hserve with }
        · exact hserve
      · cases hw
        exact hserve
  | dropConnection q =>
      cases hw
      refine h.quietStep hl rfl rfl rfl ?_ (fun _ _ => rfl) (fun _ => List.suffix_rfl)
        (fun _ _ he => Or.inl he)
      intro q' hq'
      have hne : q' ≠ q := by
        rintro rfl
        rw [show World.served _ q' = true from Function.update_self ..] at hq'
        cases hq'
      exact ⟨(Function.update_of_ne hne _ _).symm.trans hq', rfl⟩

/-- A report is queued for a controller that has its port. -/
theorem report (h : ServerSide s) (hl : s.world.Labelled) {c : ControllerId} {e : Port × Report}
    {ctl : Controller} (hctl : s.world.server.controllers c = some ctl) (he : e.1 ∈ ctl.ports)
    {reg : Registry} (hreg : reg.sessions = s.world.reg.sessions) :
    ServerSide (s.after ({ s.world with reg := reg }.report c e)) := by
  refine h.quietStep hl hreg rfl rfl (fun _ hq => ⟨hq, rfl⟩) (fun _ _ => rfl)
    (fun _ => List.suffix_rfl) ?_
  intro c' e' he'
  rcases mem_update_push he' with ⟨rfl, rfl⟩ | hold
  · exact Or.inr ⟨ctl, hctl, he⟩
  · exact Or.inl hold

theorem envStep (h : ServerSide s) (hl : s.world.Labelled) {a : EnvAct}
    (hw : s.world.envStep a = some w) : ServerSide (s.after w) := by
  cases a with
  | accept c p x =>
      obtain ⟨⟨⟨ctl, hctl, hmonitor⟩, -⟩, hw⟩ := Option.ite_none_right_eq_some.mp hw
      cases hw
      refine h.report hl hctl ?_ rfl
      have hport : (reportOf (monitorOf p) x).1 = p := by
        unfold monitorOf
        split <;> rfl
      rw [hport]
      exact h.listens c ctl hctl p hmonitor
  | monitorError c p =>
      obtain ⟨⟨⟨ctl, hctl, hmonitor⟩, -⟩, hw⟩ := Option.ite_none_right_eq_some.mp hw
      cases hw
      exact h.report hl hctl (h.listens c ctl hctl p hmonitor) rfl
  | pendingTimeout c number =>
      cases hw
      exact h.quietStep hl rfl rfl rfl (fun _ hq => ⟨hq, rfl⟩) (fun _ _ => rfl)
        (fun _ => List.suffix_rfl) (fun _ _ he => Or.inl he)
  | claim task =>
      obtain ⟨-, hw⟩ := Option.ite_none_right_eq_some.mp hw
      cases hw
      have herase : ServerSide (s.after { s.world with tasks := s.world.tasks.erase task }) :=
        h.quietStep hl rfl rfl rfl (fun _ hq => ⟨hq, rfl⟩) (fun _ _ => rfl)
          (fun _ => List.suffix_rfl) (fun _ _ he => Or.inl he)
      unfold claimPending
      split
      · split
        · exact { herase with }
        · exact herase
      · exact herase

end ServerSide

/-! ## Both sides

The two invariants are about the same connections from their two ends. Steps of the clients leave
the server's side as it is and the other way round, up to queues that grow, which is why the two
were proved separately. -/

/-- What every step keeps. -/
structure Conforming (s : Traced) : Prop where
  labelled : s.world.Labelled
  client : ClientSide s
  server : ServerSide s

theorem Conforming.step {resolve : String → Option CacheAddr} {s t : Traced} (h : Conforming s)
    {a : World.Act} (ht : s.step resolve a = some t) : Conforming t := by
  obtain ⟨w, hw, rfl⟩ := Option.map_eq_some_iff.mp ht
  have hlabelled : w.Labelled := World.step_labelled h.labelled hw
  cases a with
  | client k a =>
      exact ⟨hlabelled, h.client.clientStep hw, h.server.clientEffect (World.clientStep_effect hw)⟩
  | server a =>
      exact ⟨hlabelled, h.client.serverEffect (World.serverStep_effect hw),
        h.server.serverStep h.labelled hw⟩
  | controller c a =>
      obtain ⟨q, hq, hw⟩ := Option.bind_eq_some_iff.mp hw
      exact ⟨hlabelled, h.client.serverEffect (World.sessionStep_effect hw),
        h.server.sessionStep h.labelled hq hw⟩
  | env a =>
      exact ⟨hlabelled, h.client.serverEffect (World.envStep_effect hw),
        h.server.envStep h.labelled hw⟩

theorem reaches_conforming {resolve : String → Option CacheAddr} {s : Traced}
    (h : Reaches (Traced.step resolve) .init s) : Conforming s :=
  run_invariant (fun _ _ _ hs ha => hs.step ha)
    ⟨World.labelled_init, clientSide_init, serverSide_init⟩ h

/-! ## What a client reads

Whatever is on its way to a serving client has been sent behind the reply, so it is an
announcement, of a port that was granted; and the reply that was sent is the one by which the
client has chosen its links. -/

/-- What the controller has announced since its reply, the client has asked for and been granted. -/
theorem Controller.Granted.announced {c i : ControllerId} {granted : Finset Port} {ports : List Port}
    {interval : Option UInt64} {accepted : Accepted} {beats : List Client.JsonMessage}
    {sent : List Server.JsonMessage}
    (h : Granted c granted (.newClient :: .pushConfig ports interval :: beats)
      (.acceptClient i :: .acceptConfig accepted :: sent)) :
    ∀ msg ∈ sent, ∃ p n, msg = .newChannel p n ∧ p ∈ ports ∧ accepted.Grants p := by
  intro msg hmsg
  obtain ⟨requested, interval', used, channels, hup, hdown, rfl, hchannels⟩ := h
  obtain ⟨-, hup⟩ := List.cons_prefix_cons.mp hup
  obtain ⟨hconfig, -⟩ := List.cons_prefix_cons.mp hup
  cases hconfig
  cases hdown
  obtain ⟨e, he, rfl⟩ := List.mem_map.mp hmsg
  have hgranted : e.1 ∈ (reserve used ports).success := List.mem_toFinset.mp (hchannels e he)
  refine ⟨e.1, e.2, rfl, (mem_reserve_success.mp hgranted).1, ?_⟩
  unfold Reservation.accepted
  split
  · trivial
  · exact hgranted

/-- Everything on its way to a serving client is the announcement of a port it has a link for. -/
theorem Conforming.announced {s : Traced} (h : Conforming s) {k : ClientId} {pr : ClientProc}
    (hpr : s.world.procs k = some pr) (hphase : pr.phase = .serving) :
    ∀ msg ∈ s.world.down pr.conn, ∃ p n, msg = .newChannel p n ∧ p ∈ pr.client.config.links.keys := by
  intro msg hmsg
  obtain ⟨hconn, hfollows⟩ := h.client.procs k pr hpr
  simp only [ClientProc.Follows, hphase] at hfollows
  obtain ⟨ports, interval, n, i, accepted, news, hup, hdown, hlinks⟩ := hfollows
  -- somebody has written what the client has read
  obtain ⟨c, hsession⟩ : ∃ c, s.world.reg.sessions c = some pr.conn := by
    by_contra hnone
    have hempty := h.server.unheld pr.conn fun c hc => hnone ⟨c, hc⟩
    rw [hdown] at hempty
    cases hempty
  obtain ⟨ctl, -, hcontroller⟩ := h.server.sessions c pr.conn hsession
  have hlog := hcontroller.log
  rw [hup, hdown] at hlog
  rcases hlog with hlog | hlog | ⟨granted, hgranted⟩
  · cases hlog
  · cases hlog
  · obtain ⟨p, n, rfl, hport⟩ := hgranted.announced msg (List.mem_append_right _ hmsg)
    exact ⟨p, n, rfl, (hlinks p).mpr hport⟩

/-- A client that reads stops neither at `todo!()` nor at `self.id.unwrap()`. -/
theorem ClientProc.afterRead_phase {pr : ClientProc} {msg : Option Server.JsonMessage}
    (hreading : pr.isReading)
    (hid : pr.phase = .awaitConfig ∨ pr.phase = .serving → ∃ i, pr.client.id = some i)
    (hmsg : pr.phase = .serving → ∀ m, msg = some m → ∃ p n, m = .newChannel p n) :
    (pr.afterRead msg).phase ≠ .stopped := by
  unfold isReading at hreading
  split at hreading
  · rename_i hphase
    simp only [afterRead, hphase]
    split
    · exact ClientPhase.noConfusion
    · exact ClientPhase.noConfusion
  · rename_i hphase
    obtain ⟨i, hi⟩ := hid (Or.inl hphase)
    have hpanic := Client.pushConfig_ne_panicked hi (Client.receivedReply msg)
    simp only [afterRead, hphase]
    split
    · exact ClientPhase.noConfusion
    · exact ClientPhase.noConfusion
    · rename_i hpush
      rw [hpush] at hpanic
      exact absurd rfl hpanic
  · rename_i hphase
    obtain ⟨i, hi⟩ := hid (Or.inr hphase)
    cases msg with
    | none =>
        simp only [afterRead, hphase]
        exact ClientPhase.noConfusion
    | some m =>
        obtain ⟨p, n, rfl⟩ := hmsg hphase m rfl
        simp [afterRead, hphase, hi]
  · cases hreading

/-- **Both sides of every control session keep to the script**, whatever the clients, the server, the
external connections and the network do. No client panics on what it reads, and an accepted client
starts a channel for every announcement. -/
theorem sessions_conform (resolve : String → Option CacheAddr) {s : Traced}
    (h : Reaches (Traced.step resolve) .init s) :
    (∀ q, ServerScript (s.sentDown q)) ∧
    (∀ q k, s.world.reg.conns q = some ⟨k, none⟩ → ClientScript (s.sentUp q)) ∧
    ∀ k pr, s.world.procs k = some pr → pr.isReading →
      (pr.afterRead none).phase ≠ .stopped ∧
      ∀ msg rest, s.world.down pr.conn = msg :: rest →
        (pr.afterRead (some msg)).phase ≠ .stopped ∧
        (pr.phase = .serving → ∃ p n, msg = .newChannel p n ∧
          p ∈ pr.client.config.links.keys ∧ (pr.startedChannel k (some msg)).isSome) := by
  have hs := reaches_conforming h
  refine ⟨fun q => ?_, hs.client.control, fun k pr hpr hreading => ?_⟩
  · by_cases hheld : ∃ c, s.world.reg.sessions c = some q
    · obtain ⟨c, hc⟩ := hheld
      obtain ⟨ctl, -, hcontroller⟩ := hs.server.sessions c q hc
      exact hcontroller.log.script
    · rw [hs.server.unheld q fun c hc => hheld ⟨c, hc⟩]
      exact ⟨0, .all, [], List.nil_prefix⟩
  · have hid : pr.phase = .awaitConfig ∨ pr.phase = .serving → ∃ i, pr.client.id = some i := by
      intro hphase
      obtain ⟨i, hi, -⟩ := (hs.labelled.procs k pr hpr).session (Or.inr hphase)
      exact ⟨i, hi⟩
    refine ⟨ClientProc.afterRead_phase hreading hid (by simp), fun msg rest hdown => ?_⟩
    have hnews : pr.phase = .serving → ∃ p n, msg = .newChannel p n ∧
        p ∈ pr.client.config.links.keys := fun hphase =>
      hs.announced hpr hphase msg (by rw [hdown]; exact List.mem_cons_self ..)
    refine ⟨ClientProc.afterRead_phase hreading hid ?_, fun hphase => ?_⟩
    · rintro hphase m ⟨⟩
      obtain ⟨p, n, rfl, -⟩ := hnews hphase
      exact ⟨p, n, rfl⟩
    · obtain ⟨p, n, rfl, hp⟩ := hnews hphase
      obtain ⟨i, hi⟩ := hid (Or.inr hphase)
      refine ⟨p, n, rfl, hp, ?_⟩
      simp only [ClientProc.startedChannel, hphase, hi, Option.isSome_map]
      exact AList.lookup_isSome.mpr (AList.mem_keys.mpr hp)

/-- Two external connections have been announced to the client of `twoLinks`. -/
theorem sessions_conform_twoLinks :
    ∃ (s : Traced) (pr : ClientProc), s.world.procs 0 = some pr ∧ pr.phase = .serving ∧
      s.world.down pr.conn = [.newChannel ⟨80, .tcp⟩ 100, .newChannel ⟨80, .udp⟩ 101] ∧
      ServerScript (s.sentDown pr.conn) ∧ ClientScript (s.sentUp pr.conn) ∧
      (pr.startedChannel 0 (some (.newChannel ⟨80, .tcp⟩ 100))).isSome := by
  have hrun : (run (World.step fun _ => some (.socketAddr ⟨.v4 0x7f000001#32, 22⟩)) .init
      (World.twoLinks.take 14)).bind (fun w => (w.procs 0).map fun pr =>
        (pr.phase, w.down pr.conn, w.reg.conns pr.conn))
      = some (.serving, [.newChannel ⟨80, .tcp⟩ 100, .newChannel ⟨80, .udp⟩ 101],
          some ⟨0, none⟩) := by
    decide +kernel
  obtain ⟨w, hw, hstate⟩ := Option.bind_eq_some_iff.mp hrun
  obtain ⟨pr, hpr, hstate⟩ := Option.map_eq_some_iff.mp hstate
  obtain ⟨hphase, hrest⟩ := Prod.mk.inj hstate
  obtain ⟨hdown, hconn⟩ := Prod.mk.inj hrest
  obtain ⟨s, hs, rfl⟩ := Traced.run_of_world (s := .init) hw
  obtain ⟨hserver, hclient, hread⟩ := sessions_conform _ ⟨_, hs⟩
  have hreading : pr.isReading := by simp [ClientProc.isReading, hphase]
  obtain ⟨-, hmsg⟩ := hread 0 pr hpr hreading
  obtain ⟨-, hserving⟩ := hmsg _ _ hdown
  obtain ⟨p, n, -, -, hstarted⟩ := hserving hphase
  exact ⟨s, pr, hpr, hphase, hdown, hserver _, hclient _ 0 hconn, hstarted⟩

end Rslinker
