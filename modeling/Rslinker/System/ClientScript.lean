import Rslinker.System.Trace

set_option autoImplicit false

/-! # The client's side of a control session

A client writes `NewClient`, then the keys of its links as `PushConfig`, then heartbeats, and between
them it waits for the two answers of the server. `ClientProc.Follows` says for every point of `exec`
what the client has written on its connection and what it has read from it; `ClientSide` is the
invariant that every step of the system keeps.

The script is a property of the messages alone, in the order in which they are put on the
connection. A write that has failed may have delivered its message, so the script allows a message
that the client does not count as sent.
-/

namespace Rslinker

/-- The messages of a client on a control connection are the first ones of such a sequence. -/
def ClientScript (sent : List Client.JsonMessage) : Prop :=
  ∃ ports interval n,
    sent <+: .newClient :: .pushConfig ports interval :: List.replicate n .heartbeat

/-- The reply grants the port, if the client has asked for it. -/
def Accepted.Grants : Accepted → Port → Prop
  | .all, _ => True
  | .part ports, p => p ∈ ports

namespace ClientProc

/-- What a client has sent on its connection, and what it has received of the messages `sentDown`, of
which `down` are still on their way. -/
def Follows (pr : ClientProc) (sentUp : List Client.JsonMessage)
    (sentDown down : List Server.JsonMessage) : Prop :=
  match pr.phase with
  | .sendNewClient => sentUp = [] ∧ sentDown = down
  | .awaitAccept => sentUp = [.newClient] ∧ sentDown = down
  | .sendConfig => sentUp = [.newClient] ∧ ∃ i, sentDown = .acceptClient i :: down
  | .awaitConfig =>
      sentUp = [.newClient, pr.client.pushedConfig] ∧ ∃ i, sentDown = .acceptClient i :: down
  | .serving =>
      ∃ ports interval n i accepted news,
        sentUp = .newClient :: .pushConfig ports interval :: List.replicate n .heartbeat ∧
        sentDown = .acceptClient i :: .acceptConfig accepted :: (news ++ down) ∧
        ∀ p, p ∈ pr.client.config.links.keys ↔ p ∈ ports ∧ accepted.Grants p
  | .reconnecting | .stopped => True

variable {pr : ClientProc} {sentUp : List Client.JsonMessage}
  {sentDown down : List Server.JsonMessage}

/-- The server sends more. -/
theorem Follows.push (h : pr.Follows sentUp sentDown down) (more : List Server.JsonMessage) :
    pr.Follows sentUp (sentDown ++ more) (down ++ more) := by
  cases hphase : pr.phase with
  | sendNewClient | awaitAccept =>
      simp only [Follows, hphase] at h ⊢
      exact ⟨h.1, by rw [h.2]⟩
  | sendConfig | awaitConfig =>
      simp only [Follows, hphase] at h ⊢
      obtain ⟨hup, i, hdown⟩ := h
      exact ⟨hup, i, by rw [hdown, List.cons_append]⟩
  | serving =>
      simp only [Follows, hphase] at h ⊢
      obtain ⟨ports, interval, n, i, accepted, news, hup, hdown, hlinks⟩ := h
      exact ⟨ports, interval, n, i, accepted, news, hup, by simp [hdown], hlinks⟩
  | reconnecting | stopped => simp [Follows, hphase]

/-- A client that has lost its connection knows nothing of it. -/
theorem follows_of_lost (h : pr.phase = .reconnecting ∨ pr.phase = .stopped) :
    pr.Follows sentUp sentDown down := by
  rcases h with h | h
  · simp [Follows, h]
  · simp [Follows, h]

/-- **A write.** When it is done, the client has sent the next message of its script. -/
theorem Follows.write (h : pr.Follows sentUp sentDown down) {msg : Client.JsonMessage}
    (hmsg : pr.outgoing = some msg) (written : Bool) :
    (pr.afterWrite written).Follows (sentUp ++ [msg]) sentDown down ∧
      ClientScript (sentUp ++ [msg]) := by
  unfold outgoing at hmsg
  split at hmsg
  · rename_i hphase
    cases hmsg
    simp only [Follows, hphase] at h
    obtain ⟨rfl, hdown⟩ := h
    refine ⟨?_, [], none, 0, by simp⟩
    cases written
    · exact follows_of_lost (Or.inl rfl)
    · simp [Follows, afterWrite, hphase, hdown]
  · rename_i hphase
    cases hmsg
    simp only [Follows, hphase] at h
    obtain ⟨rfl, i, hdown⟩ := h
    refine ⟨?_, pr.client.config.links.keys, pr.client.config.heartbeatInterval, 0, ?_⟩
    · cases written
      · exact follows_of_lost (Or.inl rfl)
      · simp [Follows, afterWrite, hphase, hdown]
    · exact List.prefix_rfl
  · rename_i hphase
    cases hmsg
    simp only [Follows, hphase] at h
    obtain ⟨ports, interval, n, i, accepted, news, rfl, hdown, hlinks⟩ := h
    -- one heartbeat more
    have hsent : (.newClient :: .pushConfig ports interval :: List.replicate n .heartbeat)
        ++ [Client.JsonMessage.heartbeat]
          = .newClient :: .pushConfig ports interval :: List.replicate (n + 1) .heartbeat := by
      rw [List.replicate_succ']
      rfl
    rw [hsent]
    refine ⟨?_, ports, interval, n + 1, List.prefix_rfl⟩
    cases written
    · exact follows_of_lost (Or.inl rfl)
    · have hkeep : pr.afterWrite true = pr := by simp [afterWrite, hphase]
      rw [hkeep]
      simp only [Follows, hphase]
      exact ⟨ports, interval, n + 1, i, accepted, news, rfl, hdown, hlinks⟩
  · cases hmsg

theorem afterWrite_conn (pr : ClientProc) (written : Bool) :
    (pr.afterWrite written).conn = pr.conn := by
  unfold afterWrite
  split
  · split <;> rfl
  · rfl

theorem afterRead_conn (pr : ClientProc) (msg : Option Server.JsonMessage) :
    (pr.afterRead msg).conn = pr.conn := by
  unfold afterRead
  split
  · split <;> rfl
  · split <;> rfl
  · split
    · split <;> rfl
    · rfl
    · rfl
  · rfl

/-- The links of a client that has got this reply. -/
theorem keys_of_pushConfig {client client' : Client} {msg : Server.JsonMessage}
    (h : client.pushConfig (.ok msg) = (.ok, client')) :
    ∃ accepted, msg = .acceptConfig accepted ∧
      ∀ p, p ∈ client'.config.links.keys ↔ p ∈ client.config.links.keys ∧ accepted.Grants p := by
  have hok : (client.pushConfig (.ok msg)).1 = .ok := by
    rw [h]
  rcases Client.pushConfig_ok hok with ⟨hmsg, hc⟩ | ⟨ports, hmsg, hc⟩
  · rw [h] at hc
    obtain rfl : client' = client := hc
    cases hmsg
    exact ⟨.all, rfl, fun p => by simp [Accepted.Grants]⟩
  · rw [h] at hc
    obtain rfl : client' = _ := hc
    cases hmsg
    exact ⟨.part ports, rfl, fun p => by simp [Accepted.Grants]⟩

/-- **A read.** The client takes the first of the messages on their way. -/
theorem Follows.read {msg : Server.JsonMessage} (h : pr.Follows sentUp sentDown (msg :: down))
    (hreading : pr.isReading) : (pr.afterRead (some msg)).Follows sentUp sentDown down := by
  unfold isReading at hreading
  split at hreading
  · rename_i hphase
    simp only [Follows, hphase] at h
    obtain ⟨hup, hdown⟩ := h
    cases msg with
    | acceptClient i =>
        simp only [afterRead, hphase, Follows]
        exact ⟨hup, i, hdown⟩
    | _ => exact follows_of_lost (Or.inl (by simp [afterRead, hphase]))
  · rename_i hphase
    simp only [Follows, hphase] at h
    obtain ⟨hup, i, hdown⟩ := h
    rcases hpush : pr.client.pushConfig (.ok msg) with ⟨out, client⟩
    have hafter : pr.afterRead (some msg) = match out with
        | .ok => { pr with client := client, phase := .serving }
        | .err _ => { pr with client := client, phase := .reconnecting }
        | .panicked => { pr with client := client, phase := .stopped } := by
      simp only [afterRead, hphase, Client.receivedReply, hpush]
      cases out <;> rfl
    rw [hafter]
    cases out with
    | ok =>
        obtain ⟨accepted, rfl, hkeys⟩ := keys_of_pushConfig hpush
        exact ⟨_, _, 0, i, accepted, [], hup, hdown, hkeys⟩
    | err e => exact follows_of_lost (Or.inl rfl)
    | panicked => exact follows_of_lost (Or.inr rfl)
  · rename_i hphase
    simp only [Follows, hphase] at h
    obtain ⟨ports, interval, n, i, accepted, news, hup, hdown, hlinks⟩ := h
    cases msg with
    | newChannel port number =>
        simp only [afterRead, hphase]
        split
        · exact follows_of_lost (Or.inr rfl)
        · simp only [Follows, hphase]
          exact ⟨ports, interval, n, i, accepted, news ++ [.newChannel port number], hup,
            by simp [hdown], hlinks⟩
    | _ => exact follows_of_lost (Or.inr (by simp [afterRead, hphase]))
  · cases hreading

/-- A failed read loses the connection. -/
theorem follows_of_failedRead (hreading : pr.isReading) :
    (pr.afterRead none).Follows sentUp sentDown down := by
  unfold isReading at hreading
  split at hreading
  · rename_i hphase
    exact follows_of_lost (Or.inl (by simp [afterRead, hphase]))
  · rename_i hphase
    exact follows_of_lost (Or.inl (by
      simp [afterRead, hphase, Client.receivedReply, Client.pushConfig]))
  · rename_i hphase
    exact follows_of_lost (Or.inl (by simp [afterRead, hphase]))
  · cases hreading

end ClientProc

/-! ## The invariant

One client is described from its own end of the connection: what it has sent is a prefix of its
script, up to the point where `exec` stands, and what it has received are the first messages the
server has sent to it. A step of the server only makes the second list longer, and so does not
disturb it. -/

/-- What the clients have sent and received, in the whole world. -/
structure ClientSide (s : Traced) : Prop where
  fresh : ∀ q, s.world.reg.conns q = none → s.sentUp q = [] ∧ s.sentDown q = s.world.down q
  control : ∀ q k, s.world.reg.conns q = some ⟨k, none⟩ → ClientScript (s.sentUp q)
  procs : ∀ k pr, s.world.procs k = some pr → s.world.reg.conns pr.conn = some ⟨k, none⟩ ∧
    pr.Follows (s.sentUp pr.conn) (s.sentDown pr.conn) (s.world.down pr.conn)

theorem clientSide_init : ClientSide .init where
  fresh _ _ := ⟨rfl, rfl⟩
  control _ _ h := by cases h
  procs _ _ h := by cases h

namespace ClientSide

open World

variable {s : Traced} {w : World}

/-- Steps of the server's side keep it. -/
theorem serverEffect (h : ClientSide s) (heffect : ServerEffect s.world w) :
    ClientSide (s.after w) := by
  have hup : ∀ q, (s.after w).sentUp q = s.sentUp q := fun q =>
    Traced.sentUp_after_of_suffix (heffect.up q)
  have hconns : ∀ q, (s.after w).world.reg.conns q = s.world.reg.conns q := fun q =>
    congrFun heffect.conns q
  refine ⟨fun q hq => ?_, fun q k hq => ?_, fun k pr hpr => ?_⟩
  · obtain ⟨more, hmore⟩ := heffect.down q
    obtain ⟨hsent, hdown⟩ := h.fresh q ((hconns q).symm.trans hq)
    refine ⟨(hup q).trans hsent, ?_⟩
    rw [Traced.sentDown_after_of_push hmore.symm, hdown]
    exact hmore
  · rw [hup]
    exact h.control q k ((hconns q).symm.trans hq)
  · have hold : s.world.procs k = some pr := (congrFun heffect.procs k).symm.trans hpr
    obtain ⟨hconn, hfollows⟩ := h.procs k pr hold
    obtain ⟨more, hmore⟩ := heffect.down pr.conn
    refine ⟨(hconns pr.conn).trans hconn, ?_⟩
    rw [hup, Traced.sentDown_after_of_push hmore.symm, show (s.after w).world.down = w.down from rfl,
      ← hmore]
    exact hfollows.push more

/-- A step of the client `k` on the connection `q`, which is its own or new. -/
theorem ownStep (h : ClientSide s) {k : ClientId} {q : ConnId} {pr : ClientProc} (hq : pr.conn = q)
    (hprocs : w.procs = Function.update s.world.procs k (some pr))
    (howner : s.world.reg.conns q = none ∨ s.world.reg.conns q = some ⟨k, none⟩)
    (hconn : w.reg.conns q = some ⟨k, none⟩)
    (hothers : ∀ q' ≠ q, w.reg.conns q' = s.world.reg.conns q' ∧ w.up q' = s.world.up q' ∧
      w.down q' = s.world.down q')
    (hscript : ClientScript ((s.after w).sentUp q))
    (hfollows : pr.Follows ((s.after w).sentUp q) ((s.after w).sentDown q) (w.down q)) :
    ClientSide (s.after w) := by
  have hup : ∀ q' ≠ q, (s.after w).sentUp q' = s.sentUp q' := fun q' hne =>
    Traced.sentUp_after_of_suffix ((hothers q' hne).2.1 ▸ List.suffix_rfl)
  have hdown : ∀ q' ≠ q, (s.after w).sentDown q' = s.sentDown q' := fun q' hne =>
    Traced.sentDown_after_of_suffix ((hothers q' hne).2.2 ▸ List.suffix_rfl)
  refine ⟨fun q' hq' => ?_, fun q' k' hq' => ?_, fun k' pr' hpr' => ?_⟩
  · have hne : q' ≠ q := by
      rintro rfl
      rw [show (s.after w).world = w from rfl, hconn] at hq'
      cases hq'
    rw [hup q' hne, hdown q' hne, show (s.after w).world.down q' = _ from (hothers q' hne).2.2]
    exact h.fresh q' ((hothers q' hne).1.symm.trans hq')
  · by_cases hne : q' = q
    · rw [hne]
      exact hscript
    · rw [hup q' hne]
      exact h.control q' k' ((hothers q' hne).1.symm.trans hq')
  · have hupdate : Function.update s.world.procs k (some pr) k' = some pr' :=
      (congrFun hprocs k').symm.trans hpr'
    by_cases hk : k' = k
    · subst hk
      rw [Function.update_self] at hupdate
      cases hupdate
      rw [hq]
      exact ⟨hconn, hfollows⟩
    · -- another client has another connection
      rw [Function.update_of_ne hk] at hupdate
      obtain ⟨hconn', hfollows'⟩ := h.procs k' pr' hupdate
      have hne : pr'.conn ≠ q := by
        intro heq
        rw [heq] at hconn'
        rcases howner with hnone | hown
        · rw [hnone] at hconn'
          cases hconn'
        · rw [hown] at hconn'
          cases hconn'
          exact hk rfl
      rw [hup _ hne, hdown _ hne, show (s.after w).world.down _ = _ from (hothers _ hne).2.2]
      exact ⟨(hothers _ hne).1.trans hconn', hfollows'⟩

/-- A client goes on without a message. -/
theorem setProc (h : ClientSide s) {k : ClientId} {pr pr' : ClientProc}
    (hpr : s.world.procs k = some pr) (hkeep : pr'.conn = pr.conn)
    (hfollows : pr'.Follows (s.sentUp pr.conn) (s.sentDown pr.conn) (s.world.down pr.conn)) :
    ClientSide (s.after (s.world.setProc k pr')) := by
  have hconn := (h.procs k pr hpr).1
  have hup : (s.after (s.world.setProc k pr')).sentUp pr.conn = s.sentUp pr.conn :=
    Traced.sentUp_after_of_suffix List.suffix_rfl
  have hdown : (s.after (s.world.setProc k pr')).sentDown pr.conn = s.sentDown pr.conn :=
    Traced.sentDown_after_of_suffix List.suffix_rfl
  refine h.ownStep hkeep rfl (Or.inr hconn) hconn (fun _ _ => ⟨rfl, rfl, rfl⟩) ?_ ?_
  · rw [hup]
    exact h.control _ _ hconn
  · rw [hup, hdown]
    exact hfollows

theorem sent (h : ClientSide s) {k : ClientId} {pr : ClientProc} (hpr : s.world.procs k = some pr)
    {msg : Client.JsonMessage} (hmsg : pr.outgoing = some msg) (written : Bool) :
    ClientSide (s.after ((s.world.setProc k (pr.afterWrite written)).sendUp pr.conn msg)) := by
  obtain ⟨hconn, hfollows⟩ := h.procs k pr hpr
  have hsent : (s.after ((s.world.setProc k (pr.afterWrite written)).sendUp pr.conn
      msg)).sentUp pr.conn = s.sentUp pr.conn ++ [msg] :=
    Traced.sentUp_after_of_push (Function.update_self ..)
  have hdown : (s.after ((s.world.setProc k (pr.afterWrite written)).sendUp pr.conn
      msg)).sentDown pr.conn = s.sentDown pr.conn :=
    Traced.sentDown_after_of_suffix List.suffix_rfl
  obtain ⟨hnext, hscript⟩ := hfollows.write hmsg written
  refine h.ownStep (pr.afterWrite_conn written) rfl (Or.inr hconn) hconn ?_ (by rwa [hsent])
    (by rwa [hsent, hdown])
  exact fun q' hne => ⟨rfl, Function.update_of_ne hne _ _, rfl⟩

theorem received (h : ClientSide s) {k : ClientId} {pr : ClientProc}
    (hpr : s.world.procs k = some pr) (hreading : pr.isReading) {msg : Server.JsonMessage}
    {rest : List Server.JsonMessage} (hdown : s.world.down pr.conn = msg :: rest) :
    ClientSide (s.after (((s.world.dropDown pr.conn).setProc k (pr.afterRead (some msg))).startChannel
      (pr.startedChannel k (some msg)))) := by
  obtain ⟨hconn, hfollows⟩ := h.procs k pr hpr
  set w := ((s.world.dropDown pr.conn).setProc k (pr.afterRead (some msg))).startChannel
    (pr.startedChannel k (some msg)) with hw
  have hsent : (s.after w).sentUp pr.conn = s.sentUp pr.conn :=
    Traced.sentUp_after_of_suffix List.suffix_rfl
  have hrest : w.down pr.conn = rest := by
    show Function.update s.world.down pr.conn _ pr.conn = rest
    rw [Function.update_self, hdown]
    rfl
  refine h.ownStep (pr.afterRead_conn _) rfl (Or.inr hconn) hconn ?_ ?_ ?_
  · exact fun q' hne => ⟨rfl, rfl, Function.update_of_ne hne _ _⟩
  · rw [hsent]
    exact h.control _ _ hconn
  · rw [hdown] at hfollows
    rw [hsent, hrest, Traced.sentDown_after_of_suffix]
    · exact hfollows.read hreading
    · rw [hrest, hdown]
      exact List.suffix_cons _ _

/-- A client starts on a new connection. -/
theorem newConnection (h : ClientSide s) {k : ClientId} {q : ConnId} {pr : ClientProc} {u : World}
    (hu : s.world.connect q ⟨k, none⟩ = some u) (hq : pr.conn = q)
    (hphase : pr.phase = .sendNewClient)
    (hprocs : w.procs = Function.update s.world.procs k (some pr))
    (hconns : w.reg.conns = u.reg.conns) (hup : w.up = u.up) (hdown : w.down = u.down) :
    ClientSide (s.after w) := by
  obtain ⟨hfresh, hu⟩ := Option.ite_none_right_eq_some.mp hu
  cases hu
  obtain ⟨hsent, hreceived⟩ := h.fresh q hfresh
  have hup' : (s.after w).sentUp q = [] := by
    rw [Traced.sentUp_after_of_suffix (by rw [hup]), hsent]
  have hdown' : (s.after w).sentDown q = w.down q := by
    rw [Traced.sentDown_after_of_suffix (by rw [hdown]), hreceived, hdown]
  refine h.ownStep hq hprocs (Or.inl hfresh) ?_ ?_ ?_ ?_
  · rw [hconns]
    exact record_self _ _ _
  · intro q' hne
    rw [hconns, hup, hdown]
    exact ⟨Function.update_of_ne hne _ _, rfl, rfl⟩
  · rw [hup']
    exact ⟨[], none, 0, List.nil_prefix⟩
  · rw [hup', hdown']
    simp [ClientProc.Follows, hphase]

theorem procStep (h : ClientSide s) {k : ClientId} {pr : ClientProc}
    (hpr : s.world.procs k = some pr) {a : ClientAct} (hw : s.world.procStep k pr a = some w) :
    ClientSide (s.after w) := by
  cases procStep_does hw with
  | sent msg result hmsg => exact h.sent hpr hmsg result.written
  | lost msg result hmsg hlost =>
      have hfailed : result.written = false := by
        cases result with
        | ok => cases hlost
        | failed delivered => rfl
      rw [hfailed]
      exact h.setProc hpr (pr.afterWrite_conn false) (ClientProc.follows_of_lost (Or.inl rfl))
  | received msg rest hreading hdown => exact h.received hpr hreading hdown
  | readFails hreading =>
      exact h.setProc hpr (pr.afterRead_conn none) (ClientProc.follows_of_failedRead hreading)
  | reconnect q u _ hu =>
      have hprocs : u.procs = s.world.procs := connect_procs hu
      exact h.newConnection hu rfl rfl (by rw [← hprocs]; rfl) rfl rfl rfl
  | giveUp => exact h.setProc hpr rfl (ClientProc.follows_of_lost (Or.inr rfl))

/-- A channel task announces itself on a connection of its own. -/
theorem openTunnel (h : ClientSide s) {k : ClientId} {channel : Channel} {q : ConnId} {u : World}
    (hu : s.world.connect q ⟨k, some channel⟩ = some u) (hprocs : w.procs = u.procs)
    (hreg : w.reg = u.reg) (hsend : ∀ q' ≠ q, w.up q' = u.up q') (hdown : w.down = u.down) :
    ClientSide (s.after w) := by
  obtain ⟨hfresh, hu⟩ := Option.ite_none_right_eq_some.mp hu
  cases hu
  have hself : w.reg.conns q = some ⟨k, some channel⟩ := by
    rw [hreg]
    exact record_self _ _ _
  have hconns : ∀ q' ≠ q, w.reg.conns q' = s.world.reg.conns q' := by
    intro q' hne
    rw [hreg]
    exact Function.update_of_ne hne _ _
  have hup : ∀ q' ≠ q, (s.after w).sentUp q' = s.sentUp q' := fun q' hne =>
    Traced.sentUp_after_of_suffix (by rw [hsend q' hne])
  have hsent : ∀ q', (s.after w).sentDown q' = s.sentDown q' := fun q' =>
    Traced.sentDown_after_of_suffix (by rw [hdown])
  have hqueue : (s.after w).world.down = s.world.down := hdown
  refine ⟨fun q' hq' => ?_, fun q' k' hq' => ?_, fun k' pr hpr => ?_⟩
  · have hne : q' ≠ q := by
      rintro rfl
      cases hself.symm.trans hq'
    rw [hup q' hne, hsent, hqueue]
    exact h.fresh q' ((hconns q' hne).symm.trans hq')
  · have hne : q' ≠ q := by
      rintro rfl
      cases hself.symm.trans hq'
    rw [hup q' hne]
    exact h.control q' k' ((hconns q' hne).symm.trans hq')
  · obtain ⟨hconn, hfollows⟩ := h.procs k' pr ((congrFun hprocs k').symm.trans hpr)
    have hne : pr.conn ≠ q := by
      intro heq
      rw [heq, hfresh] at hconn
      cases hconn
    rw [hup _ hne, hsent, hqueue]
    exact ⟨(hconns _ hne).trans hconn, hfollows⟩

theorem clientStep {resolve : String → Option CacheAddr} (h : ClientSide s) {k : ClientId}
    {a : ClientAct} (hw : s.world.clientStep resolve k a = some w) : ClientSide (s.after w) := by
  cases clientStep_does hw with
  | start q config _ _ _ links u _ _ hu =>
      have hprocs : u.procs = s.world.procs := connect_procs hu
      exact h.newConnection hu rfl rfl (by rw [← hprocs]; rfl) rfl rfl rfl
  | openTunnel channel q u _ _ hu =>
      exact h.openTunnel hu rfl rfl (fun q' hne => Function.update_of_ne hne _ _) rfl
  | dropChannel => exact h.serverEffect { ServerEffect.refl s.world with }
  | proc _ pr _ hpr hw => exact h.procStep hpr hw

end ClientSide

end Rslinker
