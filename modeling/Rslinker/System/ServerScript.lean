import Rslinker.System.Trace

set_option autoImplicit false

/-! # The server's side of a control session

A controller answers `NewClient` with `AcceptClient` and the configuration with `AcceptConfig`, and
announces the sockets its monitors report. `Controller.Follows` says for every point of `exec` what
it has read and written on its connection, and `Granted` which ports its reply has granted: those its
monitors listen on. `ServerSide` is the invariant that every step of the system keeps.

`accept_config` sets the ports of the controller after its reply, and the monitors are started
behind that. So whatever a monitor reports, and hence whatever is announced, is a port that the
reply has granted.
-/

namespace Rslinker

def newChannels (channels : List (Port × Nat)) : List Server.JsonMessage :=
  channels.map fun e => .newChannel e.1 e.2

/-- The messages of a server on a control connection are the first ones of such a sequence. -/
def ServerScript (sent : List Server.JsonMessage) : Prop :=
  ∃ i accepted channels,
    sent <+: .acceptClient i :: .acceptConfig accepted :: newChannels channels

/-- What a write puts on the connection. -/
def Write.sent {α : Type*} (result : Write) (msg : α) : List α :=
  if result.delivered then [msg] else []

namespace Controller

/-! ## Reading and writing

A step of a controller reads at most one message and writes at most one. `Exchange` has a
constructor for each combination that occurs, so that the invariant is shown by cases on it, and
not by the phases of the controller. -/

/-- What a step of the controller `c` reads from its connection and writes to it. The messages on
their way to it are `up` before and `up'` after the step. -/
inductive Exchange (ctl : Controller) (c : ControllerId) :
    PortSystem.Act → (up up' : List Client.JsonMessage) → List Server.JsonMessage → Prop
  | acceptClient (result : Write) (up : List Client.JsonMessage) :
      Exchange ctl c (.acceptClient c result.written) up up (result.sent (.acceptClient c))
  | recvConfig (msg : Client.JsonMessage) (up : List Client.JsonMessage) :
      Exchange ctl c (.recvConfig c (some msg)) (msg :: up) up []
  | recvFails (up : List Client.JsonMessage) : Exchange ctl c (.recvConfig c none) up up []
  | reserve (up : List Client.JsonMessage) : Exchange ctl c (.reserve c) up up []
  | reply (accepted : Accepted) (success : List Port) (hphase : ctl.phase = .replying accepted success)
      (result : Write) (up : List Client.JsonMessage) :
      Exchange ctl c (.reply c result.written) up up (result.sent (.acceptConfig accepted))
  | recvMsg (msg : Client.JsonMessage) (up : List Client.JsonMessage) :
      Exchange ctl c (.mainLoop c (.message (some msg))) (msg :: up) up []
  | mainLoop (event : LoopEvent) (up : List Client.JsonMessage) :
      Exchange ctl c (.mainLoop c event) up up []
  | newChannel (p : Port) (n : Nat) (hp : p ∈ ctl.ports) (result : Write)
      (up : List Client.JsonMessage) :
      Exchange ctl c (.mainLoop c (.newChannel p result.written)) up up
        (result.sent (.newChannel p n))
  | cleanup (up : List Client.JsonMessage) : Exchange ctl c (.cleanup c) up up []

/-! ## The points of `exec`

What a controller has sent is determined by the point where `exec` stands. After an error it is in
`cleanup`, and may have got there from any point; then it has sent a part of the script and sends
nothing more. -/

/-- `accept_config` has answered the configuration the client has sent, and has granted the ports
`granted`. Only they are announced. -/
def Granted (c : ControllerId) (granted : Finset Port) (sentUp : List Client.JsonMessage)
    (sentDown : List Server.JsonMessage) : Prop :=
  ∃ requested interval used channels,
    [.newClient, .pushConfig requested interval] <+: sentUp ∧
    sentDown
      = .acceptClient c :: .acceptConfig (reserve used requested).accepted :: newChannels channels ∧
    granted = (reserve used requested).success.toFinset ∧
    ∀ e ∈ channels, e.1 ∈ granted

def Log (c : ControllerId) (sentUp : List Client.JsonMessage) (sentDown : List Server.JsonMessage) :
    Prop :=
  sentDown = [] ∨ sentDown = [.acceptClient c] ∨ ∃ granted, Granted c granted sentUp sentDown

def Unset (ctl : Controller) : Prop := ctl.ports = ∅ ∧ ctl.monitors = 0

/-- What a controller has sent on its connection, and what it has received of the messages `sentUp`,
of which `up` are still on their way. -/
def Follows (ctl : Controller) (c : ControllerId) (sentUp up : List Client.JsonMessage)
    (sentDown : List Server.JsonMessage) : Prop :=
  match ctl.phase with
  | .accepting => sentUp = .newClient :: up ∧ sentDown = [] ∧ ctl.Unset
  | .configuring => sentUp = .newClient :: up ∧ sentDown = [.acceptClient c] ∧ ctl.Unset
  | .locking requested =>
      (∃ interval, [.newClient, .pushConfig requested interval] <+: sentUp) ∧
      sentDown = [.acceptClient c] ∧ ctl.Unset
  | .replying accepted success =>
      (∃ requested interval used, [.newClient, .pushConfig requested interval] <+: sentUp ∧
        accepted = (reserve used requested).accepted ∧ success = (reserve used requested).success) ∧
      sentDown = [.acceptClient c] ∧ ctl.Unset
  | .looping => Granted c ctl.ports sentUp sentDown
  | .cleaning | .finished => Log c sentUp sentDown

variable {ctl : Controller} {c : ControllerId} {granted : Finset Port}
  {sentUp up up' : List Client.JsonMessage} {sentDown more : List Server.JsonMessage}

theorem Granted.push (h : Granted c granted sentUp sentDown) (more : List Client.JsonMessage) :
    Granted c granted (sentUp ++ more) sentDown := by
  obtain ⟨requested, interval, used, channels, hup, hdown, hgranted, hchannels⟩ := h
  exact ⟨requested, interval, used, channels, hup.trans (List.prefix_append _ _), hdown, hgranted,
    hchannels⟩

theorem Granted.announce (h : Granted c granted sentUp sentDown) {p : Port} (hp : p ∈ granted)
    (n : Nat) (result : Write) :
    Granted c granted sentUp (sentDown ++ result.sent (.newChannel p n)) := by
  unfold Write.sent
  split
  · obtain ⟨requested, interval, used, channels, hup, hdown, hgranted, hchannels⟩ := h
    refine ⟨requested, interval, used, channels ++ [(p, n)], hup, ?_, hgranted, ?_⟩
    · simp [hdown, newChannels]
    · intro e he
      rcases List.mem_append.mp he with he | he
      · exact hchannels e he
      · rw [List.mem_singleton.mp he]
        exact hp
  · rwa [List.append_nil]

theorem Log.push (h : Log c sentUp sentDown) (more : List Client.JsonMessage) :
    Log c (sentUp ++ more) sentDown := by
  rcases h with h | h | ⟨granted, h⟩
  · exact Or.inl h
  · exact Or.inr (Or.inl h)
  · exact Or.inr (Or.inr ⟨granted, h.push more⟩)

/-- Nothing but the script. -/
theorem Log.script (h : Log c sentUp sentDown) : ServerScript sentDown := by
  rcases h with rfl | rfl | ⟨granted, requested, interval, used, channels, -, rfl, -, -⟩
  · exact ⟨0, .all, [], List.nil_prefix⟩
  · exact ⟨c, .all, [], by simp⟩
  · exact ⟨c, _, channels, List.prefix_rfl⟩

theorem Follows.log (h : ctl.Follows c sentUp up sentDown) : Log c sentUp sentDown := by
  cases hphase : ctl.phase with
  | accepting =>
      simp only [Follows, hphase] at h
      exact Or.inl h.2.1
  | configuring | locking | replying =>
      simp only [Follows, hphase] at h
      exact Or.inr (Or.inl h.2.1)
  | looping =>
      simp only [Follows, hphase] at h
      exact Or.inr (Or.inr ⟨_, h⟩)
  | cleaning | finished => simpa only [Follows, hphase] using h

/-- After the reply, in `main_loop` or out of it. -/
theorem follows_of_granted (h : Granted c ctl.ports sentUp sentDown) (up : List Client.JsonMessage)
    (ends : Bool) :
    { ctl with phase := if ends then .cleaning else .looping : Controller }.Follows c sentUp up
      sentDown := by
  cases ends
  · exact h
  · exact Or.inr (Or.inr ⟨_, h⟩)

/-- The client sends more. -/
theorem Follows.push (h : ctl.Follows c sentUp up sentDown) (more : List Client.JsonMessage) :
    ctl.Follows c (sentUp ++ more) (up ++ more) sentDown := by
  cases hphase : ctl.phase with
  | accepting | configuring =>
      simp only [Follows, hphase] at h ⊢
      exact ⟨by rw [h.1, List.cons_append], h.2⟩
  | locking requested =>
      simp only [Follows, hphase] at h ⊢
      obtain ⟨⟨interval, hup⟩, h⟩ := h
      exact ⟨⟨interval, hup.trans (List.prefix_append _ _)⟩, h⟩
  | replying accepted success =>
      simp only [Follows, hphase] at h ⊢
      obtain ⟨⟨requested, interval, used, hup, hreply⟩, h⟩ := h
      exact ⟨⟨requested, interval, used, hup.trans (List.prefix_append _ _), hreply⟩, h⟩
  | looping =>
      simp only [Follows, hphase] at h ⊢
      exact h.push more
  | cleaning | finished =>
      simp only [Follows, hphase] at h ⊢
      exact h.push more

/-- The monitors listen on the ports of the controller. -/
def ListensOnPorts (ctl : Controller) : Prop := ∀ p, monitorOf p ∈ ctl.monitors → p ∈ ctl.ports

/-- **A step of a controller.** It goes on as its script says, keeps its ports, and gets monitors for
its ports only. -/
theorem Follows.step (h : ctl.Follows c sentUp up sentDown) (hlisten : ctl.ListensOnPorts)
    {s t : PortSystem} (hctl : s.controllers c = some ctl) {a : PortSystem.Act}
    (hstep : PortSystem.Step s a t) (hio : ctl.Exchange c a up up' more) :
    ∃ ctl', t.controllers = Function.update s.controllers c (some ctl') ∧
      ctl'.Follows c sentUp up' (sentDown ++ more) ∧ ctl.ports ⊆ ctl'.ports ∧ ctl'.ListensOnPorts := by
  -- the step is one of the controller in the state `ctl`
  cases hio with
  | acceptClient result =>
      cases hstep with
      | acceptClient _ ctl₀ _ hctl₀ hphase =>
          obtain rfl := Option.some.inj (hctl₀.symm.trans hctl)
          simp only [Follows, hphase] at h
          obtain ⟨hup, rfl, hunset⟩ := h
          refine ⟨_, rfl, ?_, subset_rfl, hlisten⟩
          cases result with
          | ok => exact ⟨hup, rfl, hunset⟩
          | failed delivered =>
              cases delivered
              · exact Or.inl rfl
              · exact Or.inr (Or.inl rfl)
  | recvConfig msg =>
      cases hstep with
      | pushConfig _ ctl₀ ports interval hctl₀ hphase =>
          obtain rfl := Option.some.inj (hctl₀.symm.trans hctl)
          simp only [Follows, hphase] at h
          obtain ⟨rfl, rfl, hunset⟩ := h
          refine ⟨_, rfl, ?_, subset_rfl, hlisten⟩
          exact ⟨⟨interval, by simp⟩, rfl, hunset⟩
      | noConfig _ ctl₀ _ hmsg hctl₀ hphase =>
          obtain rfl := Option.some.inj (hctl₀.symm.trans hctl)
          simp only [Follows, hphase] at h
          obtain ⟨rfl, rfl, hunset⟩ := h
          exact ⟨_, rfl, Or.inr (Or.inl rfl), subset_rfl, hlisten⟩
  | recvFails =>
      cases hstep with
      | noConfig _ ctl₀ _ hmsg hctl₀ hphase =>
          obtain rfl := Option.some.inj (hctl₀.symm.trans hctl)
          rw [List.append_nil]
          exact ⟨_, rfl, h.log, subset_rfl, hlisten⟩
  | reserve =>
      cases hstep with
      | reserve _ ctl₀ ports hctl₀ hphase hlock =>
          obtain rfl := Option.some.inj (hctl₀.symm.trans hctl)
          simp only [Follows, hphase] at h
          obtain ⟨⟨interval, hup⟩, rfl, hunset⟩ := h
          refine ⟨_, rfl, ?_, subset_rfl, hlisten⟩
          exact ⟨⟨ports, interval, s.usingPorts, hup, rfl, rfl⟩, rfl, hunset⟩
  | reply accepted success hreplying result =>
      simp only [Follows, hreplying] at h
      obtain ⟨⟨requested, interval, used, hup, rfl, rfl⟩, rfl, hports, hmonitors⟩ := h
      have hgranted : Granted c (Controller.reserve used requested).success.toFinset sentUp
          [.acceptClient c, .acceptConfig (Controller.reserve used requested).accepted] :=
        ⟨requested, interval, used, [], hup, rfl, rfl, by simp⟩
      generalize hwritten : result.written = written at hstep
      cases hstep with
      | replied _ ctl₀ _ _ hctl₀ hphase =>
          obtain rfl := Option.some.inj (hctl₀.symm.trans hctl)
          rw [hreplying] at hphase
          cases hphase
          refine ⟨_, rfl, ?_, by simp [hports], ?_⟩
          · cases result with
            | ok => exact hgranted
            | failed => cases hwritten
          · intro p hp
            have hstarted : monitorOf p ∈
                startMonitors (Controller.reserve used requested).success.toFinset := hp
            obtain ⟨p', hp', heq⟩ := Multiset.mem_map.mp hstarted
            rwa [← monitorOf_injective heq]
      | replyFailed _ ctl₀ _ _ hctl₀ hphase =>
          obtain rfl := Option.some.inj (hctl₀.symm.trans hctl)
          refine ⟨_, rfl, ?_, subset_rfl, hlisten⟩
          cases result with
          | ok => cases hwritten
          | failed delivered =>
              cases delivered
              · exact Or.inr (Or.inl rfl)
              · exact Or.inr (Or.inr ⟨_, hgranted⟩)
  | recvMsg | mainLoop =>
      cases hstep with
      | mainLoop _ ctl₀ event hctl₀ hphase =>
          obtain rfl := Option.some.inj (hctl₀.symm.trans hctl)
          simp only [Follows, hphase] at h
          rw [List.append_nil]
          exact ⟨_, rfl, follows_of_granted h _ _, subset_rfl, hlisten⟩
  | newChannel p n hp result =>
      cases hstep with
      | mainLoop _ ctl₀ event hctl₀ hphase =>
          obtain rfl := Option.some.inj (hctl₀.symm.trans hctl)
          simp only [Follows, hphase] at h
          exact ⟨_, rfl, follows_of_granted (h.announce hp n result) _ _, subset_rfl, hlisten⟩
  | cleanup =>
      cases hstep with
      | cleanup _ ctl₀ hctl₀ hphase hlock =>
          obtain rfl := Option.some.inj (hctl₀.symm.trans hctl)
          rw [List.append_nil]
          exact ⟨_, rfl, h.log, subset_rfl, hlisten⟩

end Controller

/-! ## The steps of controllers in the world

A step of a controller touches its own connection, its monitors and its table. What it leaves alone
is collected in `SessionEffect`, for the proofs about other connections. -/

namespace World

/-- What a step of the controller of the connection `q` leaves alone. -/
structure SessionEffect (w w' : World) (q : ConnId) : Prop where
  sessions : w'.reg.sessions = w.reg.sessions
  served : w'.served = w.served
  reports : ∀ c, w'.reports c ⊆ w.reports c
  others : ∀ q' ≠ q, w'.up q' = w.up q' ∧ w'.down q' = w.down q'

namespace SessionEffect

theorem refl (w : World) (q : ConnId) : SessionEffect w w q :=
  ⟨rfl, rfl, fun _ => List.Subset.refl _, fun _ _ => ⟨rfl, rfl⟩⟩

theorem trans {w₁ w₂ w₃ : World} {q : ConnId} (h : SessionEffect w₁ w₂ q)
    (h' : SessionEffect w₂ w₃ q) : SessionEffect w₁ w₃ q where
  sessions := h'.sessions.trans h.sessions
  served := h'.served.trans h.served
  reports c := List.Subset.trans (h'.reports c) (h.reports c)
  others q' hne := ⟨(h'.others q' hne).1.trans (h.others q' hne).1,
    (h'.others q' hne).2.trans (h.others q' hne).2⟩

theorem dropUp (w : World) (q : ConnId) : SessionEffect w (w.dropUp q) q :=
  { refl w q with others := fun _ hne => ⟨Function.update_of_ne hne _ _, rfl⟩ }

theorem dropReport (w : World) (q : ConnId) {c : ControllerId} {e : Port × Report}
    {rest : List (Port × Report)} (h : w.reports c = e :: rest) :
    SessionEffect w { w with reports := Function.update w.reports c rest } q := by
  refine { refl w q with reports := ?_ }
  intro c' e' he'
  refine mem_of_mem_update (i := c) ?_ he'
  intro e'' he''
  rw [h]
  exact List.mem_cons_of_mem _ he''

theorem sendIf {w u : World} {q : ConnId} (h : SessionEffect w u q) (result : Write)
    (msg : Server.JsonMessage) : SessionEffect w (u.sendIf result.delivered q msg) q := by
  refine h.trans ?_
  unfold World.sendIf
  split
  · exact { refl u q with others := fun _ hne => ⟨rfl, Function.update_of_ne hne _ _⟩ }
  · exact refl u q

end SessionEffect

theorem sendIf_down (w : World) (result : Write) (q : ConnId) (msg : Server.JsonMessage) :
    (w.sendIf result.delivered q msg).down q = w.down q ++ result.sent msg := by
  unfold sendIf Write.sent
  split
  · exact Function.update_self ..
  · exact (List.append_nil _).symm

theorem sendIf_up (w : World) (delivered : Bool) (q : ConnId) (msg : Server.JsonMessage) :
    (w.sendIf delivered q msg).up = w.up := by
  unfold sendIf
  split <;> rfl

theorem sendIf_server (w : World) (delivered : Bool) (q : ConnId) (msg : Server.JsonMessage) :
    (w.sendIf delivered q msg).server = w.server := by
  unfold sendIf
  split <;> rfl

theorem dropUp_up {w : World} {q : ConnId} {msg : Client.JsonMessage}
    {rest : List Client.JsonMessage} (h : w.up q = msg :: rest) : (w.dropUp q).up q = rest := by
  show Function.update w.up q _ q = rest
  rw [Function.update_self, h]
  rfl

theorem withServer_step {w w' : World} {b : PortSystem.Act} (h : w.withServer b = some w') :
    ∃ server, PortSystem.Step w.server b server ∧ w' = { w with server := server } := by
  obtain ⟨server, hserver, rfl⟩ := Option.map_eq_some_iff.mp h
  exact ⟨server, PortSystem.step_rel hserver, rfl⟩

/-- **What a controller exchanges** with its client in one of its steps. -/
theorem sessionStep_exchange {w w' : World} {c : ControllerId} {q : ConnId} {a : ControllerAct}
    {ctl : Controller} (hctl : w.server.controllers c = some ctl)
    (hreports : ∀ e ∈ w.reports c, e.1 ∈ ctl.ports) (h : w.sessionStep c q a = some w') :
    SessionEffect w w' q ∧ ∃ b more, PortSystem.Step w.server b w'.server ∧
      ctl.Exchange c b (w.up q) (w'.up q) more ∧ w'.down q = w.down q ++ more := by
  cases sessionStep_does h with
  | acceptClient result u hu =>
      obtain ⟨server, hstep, rfl⟩ := withServer_step hu
      refine ⟨.sendIf ?_ result _, .acceptClient c result.written, result.sent _, ?_, ?_,
        sendIf_down ..⟩
      · exact { SessionEffect.refl w q with }
      · rwa [sendIf_server]
      · rw [sendIf_up]
        exact .acceptClient result _
  | recvConfig msg rest _ hup hw =>
      obtain ⟨server, hstep, rfl⟩ := withServer_step hw
      refine ⟨{ SessionEffect.dropUp w q with }, _, [], hstep, ?_, (List.append_nil _).symm⟩
      rw [hup, show World.up _ q = rest from dropUp_up hup]
      exact .recvConfig msg rest
  | recvFails _ hw =>
      obtain ⟨server, hstep, rfl⟩ := withServer_step hw
      exact ⟨{ SessionEffect.refl w q with }, _, [], hstep, .recvFails _, (List.append_nil _).symm⟩
  | reserve _ hw =>
      obtain ⟨server, hstep, rfl⟩ := withServer_step hw
      exact ⟨{ SessionEffect.refl w q with }, _, [], hstep, .reserve _, (List.append_nil _).symm⟩
  | reply accepted success result u hphase hu =>
      have hphase : ctl.phase = .replying accepted success := by simpa [hctl] using hphase
      obtain ⟨server, hstep, rfl⟩ := withServer_step hu
      refine ⟨.sendIf ?_ result _, .reply c result.written, result.sent _, ?_, ?_,
        sendIf_down ..⟩
      · exact { SessionEffect.refl w q with }
      · rwa [sendIf_server]
      · rw [sendIf_up]
        exact .reply accepted success hphase result _
  | recvMsg msg rest _ hup hw =>
      obtain ⟨server, hstep, rfl⟩ := withServer_step hw
      refine ⟨{ SessionEffect.dropUp w q with }, _, [], hstep, ?_, (List.append_nil _).symm⟩
      rw [hup, show World.up _ q = rest from dropUp_up hup]
      exact .recvMsg msg rest
  | readFails event _ hw =>
      obtain ⟨server, hstep, rfl⟩ := withServer_step hw
      exact ⟨{ SessionEffect.refl w q with }, _, [], hstep, .mainLoop event _,
        (List.append_nil _).symm⟩
  | monitorError number result port report rest _ hqueue hw =>
      obtain ⟨server, hstep, rfl⟩ := withServer_step hw
      exact ⟨{ SessionEffect.dropReport w q hqueue with }, _, [], hstep, .mainLoop _ _,
        (List.append_nil _).symm⟩
  | newChannel number result port report rest socket u hqueue _ _ hu =>
      have hport : port ∈ ctl.ports := hreports (port, report) (by simp [hqueue])
      obtain ⟨server, hstep, rfl⟩ := withServer_step hu
      refine ⟨.sendIf ?_ result _, .mainLoop c (.newChannel port result.written),
        result.sent _, ?_, ?_, sendIf_down ..⟩
      · exact { SessionEffect.dropReport w q hqueue with }
      · rwa [sendIf_server]
      · rw [sendIf_up]
        exact .newChannel port number hport result _
  | serverMsg msg rest _ _ hw =>
      obtain ⟨server, hstep, rfl⟩ := withServer_step hw
      exact ⟨{ SessionEffect.refl w q with }, _, [], hstep, .mainLoop _ _, (List.append_nil _).symm⟩
  | cleanup _ hw =>
      obtain ⟨server, hstep, rfl⟩ := withServer_step hw
      exact ⟨{ SessionEffect.refl w q with }, _, [], hstep, .cleanup _, (List.append_nil _).symm⟩

end World

end Rslinker
