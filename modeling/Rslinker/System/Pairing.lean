import Rslinker.System.Labelled

set_option autoImplicit false

/-! # External connections meet the right tunnels

Every step of the system keeps `Labelled`: a client repeats what its session has told it, the server
routes a tunnel by the id it names, and a controller draws a number for what a monitor of its own has
reported. So what is joined under one number was meant by the same controller, port and client on
both sides.
-/

namespace Rslinker

open Registry

/-! ## The client's side

What a client sends is what it has been told. It repeats the number and the port of an
announcement, with the id that it was accepted under, on a connection that it opens for this
purpose; the target is taken from its own links, at the moment it reads the announcement. -/

namespace ClientProc.Genuine

variable {r : Registry} {k : ClientId} {pr : ClientProc}

/-- In a phase without a session, nothing has to be known of the id. -/
theorem withPhase (h : pr.Genuine r k) {phase : ClientPhase}
    (hphase : phase ≠ .sendConfig ∧ phase ≠ .awaitConfig ∧ phase ≠ .serving) :
    { pr with phase := phase : ClientProc }.Genuine r k where
  owner := h.owner
  links := h.links
  session hp := by
    rcases hp with hp | hp | hp
    · exact absurd hp hphase.1
    · exact absurd hp hphase.2.1
    · exact absurd hp hphase.2.2

theorem afterWrite (h : pr.Genuine r k) (written : Bool) : (pr.afterWrite written).Genuine r k := by
  unfold ClientProc.afterWrite
  split
  · split
    · exact h.withPhase (by decide)
    · rename_i hp
      exact ⟨h.owner, h.links, fun _ => h.session (Or.inl hp)⟩
    · exact h
  · exact h.withPhase (by decide)

theorem afterRead (h : pr.Genuine r k) {msg : Option Server.JsonMessage}
    (hmsg : ∀ i, msg = some (.acceptClient i) → r.sessions i = some pr.conn) :
    (pr.afterRead msg).Genuine r k := by
  unfold ClientProc.afterRead
  split
  · split
    · rename_i id
      exact ⟨h.owner, h.links, fun _ => ⟨id, rfl, hmsg id rfl⟩⟩
    · exact h.withPhase (by decide)
  · rename_i hphase
    generalize Client.receivedReply msg = reply
    obtain ⟨hid, hlinks⟩ := Client.pushConfig_client pr.client reply
    obtain ⟨built, hbuilt, hsub⟩ := h.links
    -- every outcome leaves the id, and links the client was started with
    have hgenuine : ∀ phase, ({ pr with client := (pr.client.pushConfig reply).2, phase := phase } :
        ClientProc).Genuine r k := by
      intro phase
      refine ⟨h.owner, ⟨built, hbuilt, fun p t ht => hsub p t (hlinks p t ht)⟩, fun _ => ?_⟩
      obtain ⟨i, hi, hs⟩ := h.session (Or.inr (Or.inl hphase))
      exact ⟨i, hid.trans hi, hs⟩
    rcases hpush : pr.client.pushConfig reply with ⟨out, client⟩
    rw [hpush] at hgenuine
    cases out with
    | ok => exact hgenuine .serving
    | err e => exact hgenuine .reconnecting
    | panicked => exact hgenuine .stopped
  · split
    · split
      · exact h.withPhase (by decide)
      · exact h
    · exact h.withPhase (by decide)
    · exact h.withPhase (by decide)
  · exact h

/-- A channel is started for a number and a port that the client's own controller has announced. -/
theorem startedChannel (h : pr.Genuine r k) (hr : r.Sound) {msg : Option Server.JsonMessage}
    (hmsg : ∀ p n, msg = some (.newChannel p n) →
      ∃ c s, r.sessions c = some pr.conn ∧ r.issued n = some (c, p, s))
    {ch : Channel} (hch : pr.startedChannel k msg = some ch) : r.Answers ch := by
  unfold ClientProc.startedChannel at hch
  split at hch
  · rename_i port number id hphase hid
    obtain ⟨transfer, hlookup, rfl⟩ := Option.map_eq_some_iff.mp hch
    obtain ⟨i, hi, hsession⟩ := h.session (Or.inr (Or.inr hphase))
    obtain ⟨c, s, hc, hissued⟩ := hmsg port number rfl
    -- the controller that announces the channel is the one that gave the client its id
    obtain rfl : id = i := Option.some.inj (hid.symm.trans hi)
    obtain rfl : id = c := hr.sessions id c pr.conn hsession hc
    obtain ⟨built, hbuilt, hsub⟩ := h.links
    exact ⟨⟨s, hissued⟩, hsession, h.owner, built, hbuilt, hsub port transfer hlookup⟩
  · cases hch

end ClientProc.Genuine

namespace World

variable {w w' : World}

theorem procStep_labelled (h : w.Labelled) {k : ClientId} {pr : ClientProc}
    (hpr : w.procs k = some pr) {a : ClientAct} (hw : w.procStep k pr a = some w') :
    w'.Labelled := by
  have hgenuine := h.procs k pr hpr
  cases procStep_does hw with
  | sent msg result hmsg _ =>
      refine (h.setProc (hgenuine.afterWrite result.written)).sendUp ?_
      -- the messages of `exec` are not `AcceptChannel`
      rintro c p n rfl
      unfold ClientProc.outgoing at hmsg
      split at hmsg
      all_goals cases hmsg
  | lost msg result => exact h.setProc (hgenuine.afterWrite result.written)
  | received msg rest _ hdown =>
      have hin : msg ∈ w.down pr.conn := by simp [hdown]
      -- what `Labelled` says of the message, the client now relies on
      refine ((h.dropDown pr.conn).setProc (hgenuine.afterRead ?_)).startChannel ?_
      · intro i hi
        cases hi
        exact h.acceptClient pr.conn i hin
      · intro ch hch
        refine hgenuine.startedChannel h.sound ?_ hch
        intro p n hmsg
        cases hmsg
        exact h.newChannel pr.conn p n hin
  | readFails => exact h.setProc (hgenuine.afterRead (by simp))
  | reconnect q u _ hu =>
      obtain ⟨hlabel, hle, hconn⟩ := h.connect (by simp) hu
      exact hlabel.setProc ⟨⟨_, hconn, rfl⟩, (hgenuine.mono hle).links, by simp⟩
  | giveUp => exact h.setProc (hgenuine.withPhase (by decide))

theorem clientStep_labelled {resolve : String → Option CacheAddr} (h : w.Labelled) {k : ClientId}
    {a : ClientAct} (hw : w.clientStep resolve k a = some w') : w'.Labelled := by
  cases clientStep_does hw with
  | start q config _ _ _ links u hfresh hlinks hu =>
      obtain ⟨hlabel, hle, hconn⟩ := h.connect (by simp) hu
      -- opening the connection has not touched the links
      have hfresh' : u.reg.built k = none := by
        obtain ⟨-, hu⟩ := Option.ite_none_right_eq_some.mp hu
        cases hu
        exact hfresh
      have hkinds := buildLinks_kindsAgree (by simp [Links.KindsAgree]) hlinks
      have hle' : u.reg.Le { u.reg with built := record u.reg.built k links } :=
        le_built hfresh'
      refine (hlabel.grow hle' (hlabel.sound.newClient hfresh' hkinds) hlabel.served).setProc ?_
      exact ⟨⟨_, hconn, rfl⟩, ⟨links, record_self _ _ _, fun _ _ ht => ht⟩, by simp⟩
  | openTunnel channel q u hch howner hu =>
      have hanswers := h.channels channel hch
      -- the registry notes for which channel the tunnel was opened
      obtain ⟨hlabel, hle, hconn⟩ := h.connect
        (fun ch hc => by cases hc; exact ⟨hanswers, howner.symm⟩) hu
      have herase : { u with channels := u.channels.erase channel : World }.Labelled :=
        { hlabel with channels := fun ch hm => hlabel.channels ch (List.mem_of_mem_erase hm) }
      refine herase.sendUp ?_
      intro c p n hmsg
      cases hmsg
      exact ⟨_, channel, hconn, rfl, rfl, rfl, rfl⟩
  | dropChannel channel =>
      exact { h with channels := fun ch hm => h.channels ch (List.mem_of_mem_erase hm) }
  | proc _ pr _ hpr hw => exact procStep_labelled h hpr hw

/-! ## The server's side

The first message of a connection says what the connection is for. `NewClient` makes it the session
of a new controller; `AcceptChannel` names a controller by its id, and the server hands the
connection on to it. -/

theorem Labelled.sendTo (h : w.Labelled) {c : ControllerId} {msg : NewSocket}
    (hmsg : w.reg.Tunnel msg.socket c msg.port msg.number) : (w.sendTo c msg).Labelled := by
  unfold World.sendTo
  split
  · split
    · exact h
    · refine { h with mailbox := ?_ }
      intro c' m hm
      rcases mem_update_push hm with ⟨rfl, rfl⟩ | hm
      · exact hmsg
      · exact h.mailbox c' m hm
  · exact h

theorem Labelled.newController (h : w.Labelled) {c : ControllerId} {q : ConnId}
    (hserved : w.served q = true) (hnew : ∀ c', w.reg.sessions c' ≠ some q)
    (hw : w.newController c q = some w') : w'.Labelled := by
  obtain ⟨hfresh, hw⟩ := Option.ite_none_right_eq_some.mp hw
  obtain ⟨server, -, rfl⟩ := Option.map_eq_some_iff.mp hw
  refine (h.setServer server).grow (le_sessions hfresh) (h.sound.newSession hfresh hnew) ?_
  intro c' q' hc
  rcases record_eq_some hc with ⟨-, rfl⟩ | hc
  · exact hserved
  · exact h.served c' q' hc

theorem serverStep_labelled (h : w.Labelled) {a : ServerAct} (hw : w.serverStep a = some w') :
    w'.Labelled := by
  cases a with
  | onNewConnection q fresh =>
      obtain ⟨⟨-, hserved⟩, hw⟩ := Option.ite_none_right_eq_some.mp hw
      have hread : ((w.dropUp q).serve q).Labelled := (h.dropUp q).serve q
      split at hw
      · cases hw
      · refine hread.newController (Function.update_self ..) ?_ hw
        -- a connection that is already a session has been served
        intro c' hc
        have htrue := h.served c' q hc
        rw [hserved] at htrue
        cases htrue
      · rename_i from_ port number rest hup
        cases hw
        exact hread.sendTo (h.up q from_ port number (by simp [hup]))
      · cases hw
        exact hread
  | dropConnection q =>
      cases hw
      exact h.serve q

theorem Labelled.addPending (h : w.Labelled) {c : ControllerId} {n : Nat} {p : Port}
    {s : LocalSocket} (hfresh : w.reg.issued n = none) (hs : w.reg.AcceptedOn s c p) :
    (w.addPending c n p s).Labelled := by
  have hgrow := h.grow (le_issued hfresh) (h.sound.newNumber hfresh hs) h.served
  refine { hgrow with pending := ?_ }
  intro c' n' s' hpending
  by_cases hc : c' = c
  · subst hc
    simp only [World.addPending, Function.update_self] at hpending
    rcases record_eq_some hpending with ⟨rfl, rfl⟩ | hold
    · exact ⟨p, record_self _ _ _⟩
    · exact hgrow.pending c' n' s' hold
  · simp only [World.addPending, Function.update_of_ne hc] at hpending
    exact hgrow.pending c' n' s' hpending

theorem sessionStep_labelled (h : w.Labelled) {c : ControllerId} {q : ConnId}
    (hsession : w.reg.sessions c = some q) {a : ControllerAct}
    (hw : w.sessionStep c q a = some w') : w'.Labelled := by
  have hrest : ∀ m rest, w.reports c = m :: rest →
      { w with reports := Function.update w.reports c rest : World }.Labelled := by
    intro m rest hreports
    refine { h with reports := ?_ }
    intro c' p msg s hm hs
    refine h.reports c' p msg s (mem_of_mem_update ?_ hm) hs
    intro m hm
    simp [hreports, hm]
  cases sessionStep_does hw with
  | acceptClient result u hu =>
      obtain ⟨hlabel, hreg⟩ := h.withServer hu
      refine hlabel.sendIf result.delivered ?_ (by simp)
      rintro i hi
      cases hi
      rw [hreg]
      exact hsession
  | recvConfig msg rest _ _ hw => exact ((h.dropUp q).withServer hw).1
  | recvFails _ hw => exact (h.withServer hw).1
  | reserve _ hw => exact (h.withServer hw).1
  | reply accepted success result u _ hu =>
      exact (h.withServer hu).1.sendIf result.delivered (by simp) (by simp)
  | recvMsg msg rest _ _ hw => exact ((h.dropUp q).withServer hw).1
  | readFails event _ hw => exact (h.withServer hw).1
  | monitorError number result port report rest _ hreports hw =>
      exact ((hrest _ rest hreports).withServer hw).1
  | newChannel number result port report rest socket u hreports hsocket hfresh hu =>
      obtain ⟨hlabel, hreg⟩ := (hrest _ rest hreports).withServer hu
      -- the number is drawn for what a monitor of this controller has reported
      have haccepted : u.reg.AcceptedOn socket c port := by
        rw [hreg]
        exact h.reports c port report socket (by simp [hreports]) hsocket
      have hfresh' : u.reg.issued number = none := by
        rw [hreg]
        exact hfresh
      refine (hlabel.addPending hfresh' haccepted).sendIf result.delivered (by simp) ?_
      intro p n hmsg
      cases hmsg
      refine ⟨c, socket, ?_, record_self _ _ _⟩
      show u.reg.sessions c = some q
      rw [hreg]
      exact hsession
  | serverMsg msg rest _ hmailbox hw =>
      refine (Labelled.withServer (w := _) ?_ hw).1
      -- the task takes over what the message says of its tunnel
      refine { h with mailbox := ?_, tasks := ?_ }
      · intro c' m hm
        refine h.mailbox c' m (mem_of_mem_update ?_ hm)
        intro m hm
        simp [hmailbox, hm]
      · intro t ht
        rcases List.mem_append.mp ht with ht | ht
        · exact h.tasks t ht
        · rw [List.mem_singleton.mp ht]
          exact ⟨msg.port, h.mailbox c msg (by simp [hmailbox])⟩
  | cleanup _ hw => exact (h.withServer hw).1

/-! ## Monitors, timers and the joins

A number is drawn when a report is handled, and stands from then on for the socket in this report.
The socket in the table and the tunnel that asks for it have the same number, so the registry says
the same about both. -/

/-- **What a task joins is paired.** The pending socket and the tunnel have the same number. -/
theorem paired_of_claim (h : w.Labelled) {c : ControllerId} {p' : Port} {n : Nat} {q : ConnId}
    (ht : w.reg.Tunnel q c p' n) {s : PendingSocket} (hs : w.pending c n = some s) :
    (⟨c, s.socket, q⟩ : Join).Paired w.reg := by
  obtain ⟨p, hissued⟩ := h.pending c n s hs
  obtain ⟨info, ch, hinfo, hch, hid, hport, hnumber⟩ := ht
  obtain ⟨hanswers, howner⟩ := h.sound.tunnels _ info ch hinfo hch
  obtain ⟨⟨s', hs'⟩, hsession, hopened, links, hlinks, hlookup⟩ := hanswers
  -- the channel's number and the pending socket's number were drawn for the same thing
  rw [hnumber, hissued] at hs'
  obtain ⟨-, hrest⟩ := Prod.mk.inj (Option.some.inj hs')
  obtain rfl : p = ch.port := (Prod.mk.inj hrest).1
  rw [hid] at hsession
  refine ⟨ch.port, info, ch, links, h.sound.issued _ _ _ _ hissued, hinfo, hch, hsession, ?_, ?_,
    hlookup, h.sound.built _ _ hlinks _ _ hlookup⟩
  · rw [howner]
    exact hopened
  · rw [howner]
    exact hlinks

theorem Labelled.removePending (h : w.Labelled) (c : ControllerId) (n : Nat) :
    { w with pending := Function.update w.pending c (Function.update (w.pending c) n none) :
      World }.Labelled := by
  refine { h with pending := ?_ }
  intro c' n' s hpending
  refine h.pending c' n' s ?_
  by_cases hc : c' = c
  · subst hc
    simp only [Function.update_self] at hpending
    by_cases hn : n' = n
    · rw [hn, Function.update_self] at hpending
      cases hpending
    · rwa [Function.update_of_ne hn] at hpending
  · simpa only [Function.update_of_ne hc] using hpending

theorem Labelled.claimPending (h : w.Labelled) {t : ChannelTask} {p : Port}
    (ht : w.reg.Tunnel t.socket t.controller p t.number) : (w.claimPending t).Labelled := by
  unfold World.claimPending
  split
  · rename_i s hs
    split
    · refine { h.removePending t.controller t.number with joins := ?_ }
      intro j hj
      rcases List.mem_append.mp hj with hj | hj
      · exact h.joins j hj
      · rw [List.mem_singleton.mp hj]
        exact paired_of_claim h ht hs
    · exact h
  · exact h

theorem Labelled.report (h : w.Labelled) {c : ControllerId} {msg : Port × Report}
    (hmsg : ∀ s, msg.2.socket = some s → w.reg.AcceptedOn s c msg.1) :
    (w.report c msg).Labelled := by
  refine { h with reports := ?_ }
  intro c' p report s hm hs
  rcases mem_update_push hm with ⟨rfl, rfl⟩ | hm
  · exact hmsg s hs
  · exact h.reports c' p report s hm hs

/-- A monitor reports its own port and a socket of its own protocol. -/
theorem acceptedOn_reportOf {r : Registry} {c : ControllerId} {p : Port} {x : ExtId}
    (hx : r.accepted x = some (c, p)) {s : LocalSocket}
    (hs : (reportOf (Controller.monitorOf p) x).2.socket = some s) :
    r.AcceptedOn s c (reportOf (Controller.monitorOf p) x).1 := by
  obtain ⟨port, protocol⟩ := p
  cases protocol
  all_goals
    cases hs
    exact ⟨hx, rfl⟩

theorem envStep_labelled (h : w.Labelled) {a : EnvAct} (hw : w.envStep a = some w') :
    w'.Labelled := by
  cases a with
  | accept c p x =>
      obtain ⟨⟨-, hfresh⟩, hw⟩ := Option.ite_none_right_eq_some.mp hw
      cases hw
      refine (h.grow (le_accepted hfresh) (h.sound.newExternal hfresh) h.served).report ?_
      intro s hs
      exact acceptedOn_reportOf (record_self w.reg.accepted x (c, p)) hs
  | monitorError c p =>
      obtain ⟨-, hw⟩ := Option.ite_none_right_eq_some.mp hw
      cases hw
      exact h.report (by simp [Report.socket])
  | pendingTimeout c number =>
      cases hw
      exact h.removePending c number
  | claim task =>
      obtain ⟨htask, hw⟩ := Option.ite_none_right_eq_some.mp hw
      cases hw
      obtain ⟨p, ht⟩ := h.tasks task htask
      have herase : { w with tasks := w.tasks.erase task : World }.Labelled :=
        { h with tasks := fun t hm => h.tasks t (List.mem_of_mem_erase hm) }
      exact herase.claimPending ht

/-! ## The system

The invariant puts the five links of the chain together: socket, monitor, number, announcement and
tunnel. It says nothing about the order in which things happen, so tunnels may come late, in
another order, or not at all. -/

theorem step_labelled {resolve : String → Option CacheAddr} {a : Act} (h : w.Labelled)
    (hw : w.step resolve a = some w') : w'.Labelled := by
  cases a with
  | client k a => exact clientStep_labelled h hw
  | server a => exact serverStep_labelled h hw
  | controller c a =>
      obtain ⟨q, hq, hw⟩ := Option.bind_eq_some_iff.mp hw
      exact sessionStep_labelled h hq hw
  | env a => exact envStep_labelled h hw

/-- **Everything agrees with the registry** in every state the system reaches. -/
theorem reaches_labelled {resolve : String → Option CacheAddr}
    (h : Reaches (step resolve) init w) : w.Labelled :=
  run_invariant (fun _ _ _ hs ha => step_labelled hs ha) labelled_init h

/-- **Every join is paired**: the external connection was accepted by the controller on a port, and
the tunnel leads to the target this port has in the links of the client that the controller has
accepted. It leads to no other client's and to no other link's target. -/
theorem joins_paired (resolve : String → Option CacheAddr) (h : Reaches (step resolve) init w) :
    ∀ j ∈ w.joins, j.Paired w.reg ∧
      ∀ c p q k links info ch, w.reg.AcceptedOn j.socket c p → w.reg.sessions c = some q →
        w.reg.OpenedBy q k → w.reg.built k = some links →
        w.reg.conns j.tunnel = some info → info.channel = some ch →
        info.owner = k ∧ links.lookup p = some ch.transfer := by
  intro j hj
  have hpaired := (reaches_labelled h).joins j hj
  exact ⟨hpaired, fun _ _ _ _ _ _ _ hacc hsession hq hlinks hinfo hch =>
    hpaired.only hacc hsession hq hlinks hinfo hch⟩

def twoLinks : List Act :=
  let config : List Config.Link :=
    [⟨"127.0.0.1", 22, 80, "tcp", []⟩, ⟨"127.0.0.1", 53, 80, "udp", []⟩]
  let tcp : Port := ⟨80, .tcp⟩
  let udp : Port := ⟨80, .udp⟩
  let target : CacheAddr := .socketAddr ⟨.v4 0x7f000001#32, 22⟩
  [.client 0 (.start 0 config false none 3), .client 0 (.write .ok),
    .server (.onNewConnection 0 7), .controller 7 (.acceptClient .ok), .client 0 (.read true),
    .client 0 (.write .ok), .controller 7 (.recvConfig true), .controller 7 .reserve,
    .controller 7 (.reply .ok), .client 0 (.read true),
    .env (.accept 7 tcp 20), .env (.accept 7 udp 21),
    .controller 7 (.newChannel 100 .ok), .controller 7 (.newChannel 101 .ok),
    .client 0 (.read true), .client 0 (.read true),
    .client 0 (.openTunnel ⟨0, 0, 7, udp, 101, .rawUdp target⟩ 1),
    .client 0 (.openTunnel ⟨0, 0, 7, tcp, 100, .rawTcp target⟩ 2),
    .server (.onNewConnection 1 8), .server (.onNewConnection 2 8),
    .controller 7 .serverMsg, .controller 7 .serverMsg,
    .env (.claim ⟨7, .tcp, 80, 100, 2⟩), .env (.claim ⟨7, .udp, 80, 101, 1⟩)]

theorem joins_paired_twoLinks :
    ∃ w, run (step fun _ => some (.socketAddr ⟨.v4 0x7f000001#32, 22⟩)) init twoLinks = some w ∧
      w.joins = [⟨7, .tcp 20, 2⟩, ⟨7, .udp 21, 1⟩] ∧ ∀ j ∈ w.joins, j.Paired w.reg := by
  have hjoins : (run (step fun _ => some (.socketAddr ⟨.v4 0x7f000001#32, 22⟩)) init twoLinks).map
      World.joins = some [⟨7, .tcp 20, 2⟩, ⟨7, .udp 21, 1⟩] := by
    decide +kernel
  obtain ⟨w, hw, hj⟩ := Option.map_eq_some_iff.mp hjoins
  exact ⟨w, hw, hj, fun j hjw => (joins_paired _ ⟨_, hw⟩ j hjw).1⟩

end World

end Rslinker
