import Rslinker.System.Handshake
import Rslinker.System.Trace

set_option autoImplicit false

/-! # The links of a client over many sessions

`exec` runs session after session on new connections. Each session pushes the keys of
`config.links`, and a partial reply narrows this same table to the ports it lists. A port that is
refused once is therefore not requested again, although a reply that grants no port at all leaves
the table as it is, and the next session asks for everything again.

A run is a list of actions of `exec`: any number of sessions, with any replies.
-/

namespace Rslinker

namespace ClientProc

/-! ## Runs of `exec`

`exec` is a function of what it reads and of which of its writes fail. An exchange is what it has
to do with the server's part in `push_config`: the ports it asks for, and the reply. -/

inductive ExecAct
  | write (result : Write)
  /-- A message of the server is read, or the read fails. -/
  | read (msg : Option Server.JsonMessage)
  /-- `reconnect_to_server` succeeds with the new connection, or gives up. -/
  | reconnect (q : Option ConnId)

def step (pr : ClientProc) : ExecAct → Option ClientProc
  | .write result => pr.outgoing.map fun _ => pr.afterWrite result.written
  | .read msg => if pr.isReading then some (pr.afterRead msg) else none
  | .reconnect q =>
      if pr.phase = .reconnecting then
        match q with
        | some q => some { pr with phase := .sendNewClient, conn := q }
        | none => some { pr with phase := .stopped }
      else none

def connected (config : ClientConfig) (q : ConnId) : ClientProc := ⟨⟨none, config⟩, .sendNewClient, q⟩

/-- What `push_config` sends and what it is answered. -/
inductive Exchange
  | pushed (ports : List Port)
  | replied (accepted : Accepted)
  deriving DecidableEq

def exchange (pr : ClientProc) : ExecAct → List Exchange
  | .write result =>
      match pr.outgoing with
      | some (.pushConfig ports _) => if result.delivered then [.pushed ports] else []
      | _ => []
  | .read (some (.acceptConfig accepted)) =>
      if pr.phase = .awaitConfig then [.replied accepted] else []
  | _ => []

/-- The exchanges of all sessions of a run. -/
def exchanges (config : ClientConfig) (q : ConnId) (acts : List ExecAct) : List Exchange :=
  outputs step exchange (connected config q) acts

/-! ## What a port has to pass to be requested again

`retain` on the links removes what a partial reply does not list, except when the reply lists
nothing or the client does not accept conflicts. So a configured port is asked for in a session
when all earlier replies that narrowed the links have listed it. -/

/-- Every partial reply so far that grants anything grants the port. -/
def Passes (done : List Exchange) (p : Port) : Prop :=
  ∀ granted, .replied (.part granted) ∈ done → granted ≠ [] → p ∈ granted

theorem passes_pushed {done : List Exchange} {ports : List Port} {p : Port} :
    Passes (done ++ [.pushed ports]) p ↔ Passes done p := by
  simp [Passes]

theorem passes_replied {done : List Exchange} {accepted : Accepted} {p : Port} :
    Passes (done ++ [.replied accepted]) p ↔
      Passes done p ∧ ∀ granted, accepted = .part granted → granted ≠ [] → p ∈ granted := by
  constructor
  · intro h
    refine ⟨fun granted hmem => h granted (List.mem_append_left _ hmem), ?_⟩
    rintro granted rfl
    exact h granted (by simp)
  · rintro ⟨hdone, hlast⟩ granted hmem
    rcases List.mem_append.mp hmem with hmem | hmem
    · exact hdone granted hmem
    · exact hlast granted (by simpa using (List.mem_singleton.mp hmem).symm)

end ClientProc

/-- **The links after a reply.** A partial reply with ports narrows them to these ports. -/
theorem Client.mem_keys_pushConfig {c : Client} (hid : c.id.isSome)
    (hconflict : c.config.acceptConflict = true) {accepted : Accepted} {p : Port} :
    p ∈ (c.pushConfig (.ok (.acceptConfig accepted))).2.config.links.keys ↔
      p ∈ c.config.links.keys ∧ ∀ granted, accepted = .part granted → granted ≠ [] → p ∈ granted := by
  obtain ⟨i, hi⟩ := Option.isSome_iff_exists.mp hid
  cases accepted with
  | all => simp [Client.pushConfig, hi]
  | part ports =>
      simp only [Client.pushConfig, hi, hconflict, if_true, Accepted.part.injEq, forall_eq']
      split
      · case isTrue hempty =>
          have hports : ports = [] := by
            simp only [Bool.and_eq_true, List.isEmpty_iff] at hempty
            exact hempty.1
          simp [hports]
      · case isFalse hempty =>
          rw [Links.mem_keys_retain, decide_eq_true_eq]
          refine and_congr_right fun hp => ⟨fun hmem _ => hmem, fun h => h ?_⟩
          rintro rfl
          have hkeys : c.config.links.keys = [] := by simpa using hempty
          rw [hkeys] at hp
          cases hp

theorem Client.pushConfig_acceptConflict (c : Client)
    (reply : Except Client.PushError Server.JsonMessage) :
    (c.pushConfig reply).2.config.acceptConflict = c.config.acceptConflict := by
  by_cases hok : (c.pushConfig reply).1 = .ok
  · rcases Client.pushConfig_ok hok with ⟨-, hc⟩ | ⟨ports, -, hc⟩ <;> rw [hc]
  · rw [Client.pushConfig_not_ok hok]

/-- Only a reply to the configuration changes the links. -/
theorem Client.pushConfig_of_ne {c : Client} {msg : Option Server.JsonMessage}
    (h : ∀ accepted, msg ≠ some (.acceptConfig accepted)) :
    (c.pushConfig (receivedReply msg)).2 = c := by
  apply Client.pushConfig_not_ok
  intro hok
  have hreply : ∃ accepted, receivedReply msg = .ok (.acceptConfig accepted) := by
    rcases Client.pushConfig_ok hok with ⟨hreply, -⟩ | ⟨ports, hreply, -⟩
    · exact ⟨_, hreply⟩
    · exact ⟨_, hreply⟩
  obtain ⟨accepted, hreply⟩ := hreply
  cases msg with
  | none => cases hreply
  | some msg =>
      cases hreply
      exact h accepted rfl

namespace ClientProc

/-! ## The invariant of a run

The links in the state of the client are the configured ones that have passed all replies so far.
An action of `exec` that is no exchange leaves them as they are. -/

/-- The table of a client and what it has pushed, after these exchanges. -/
structure Kept (configured : List Port) (pr : ClientProc) (done : List Exchange) : Prop where
  acceptConflict : pr.client.config.acceptConflict = true
  id : pr.phase = .sendConfig ∨ pr.phase = .awaitConfig → pr.client.id.isSome
  keys : ∀ p, p ∈ pr.client.config.links.keys ↔ p ∈ configured ∧ Passes done p
  pushed : ∀ before ports, before ++ [.pushed ports] <+: done →
    ∀ p, p ∈ ports ↔ p ∈ configured ∧ Passes before p

theorem afterWrite_client (pr : ClientProc) (written : Bool) :
    (pr.afterWrite written).client = pr.client := by
  unfold afterWrite
  split
  · split <;> rfl
  · rfl

theorem afterWrite_phase {pr : ClientProc} {written : Bool}
    (h : (pr.afterWrite written).phase = .sendConfig ∨ (pr.afterWrite written).phase = .awaitConfig) :
    pr.phase = .sendConfig ∨ pr.phase = .awaitConfig := by
  unfold afterWrite at h
  split at h
  · split at h
    · simp at h
    · case h_2 hphase => exact Or.inl hphase
    · exact h
  · simp at h

/-- Only the write of a configuration is an exchange. -/
theorem exchange_write (pr : ClientProc) (result : Write) :
    pr.exchange (.write result) = [] ∨
      pr.exchange (.write result) = [.pushed pr.client.config.links.keys] := by
  simp only [exchange, outgoing, Client.pushedConfig]
  cases pr.phase <;> simp only [reduceCtorEq, true_or]
  split <;> simp

theorem afterRead_awaitConfig {pr : ClientProc} (hphase : pr.phase = .awaitConfig)
    (msg : Option Server.JsonMessage) :
    (pr.afterRead msg).client = (pr.client.pushConfig (Client.receivedReply msg)).2 ∧
      (pr.afterRead msg).phase ≠ .sendConfig ∧ (pr.afterRead msg).phase ≠ .awaitConfig := by
  simp only [afterRead, hphase]
  rcases pr.client.pushConfig (Client.receivedReply msg) with ⟨out, client⟩
  cases out <;> simp

/-- Any read but that of a reply to the configuration. -/
def Ignores (pr : ClientProc) (msg : Option Server.JsonMessage) : Prop :=
  pr.phase = .awaitConfig → ∀ accepted, msg ≠ some (.acceptConfig accepted)

section Ignores

variable {pr : ClientProc} {msg : Option Server.JsonMessage}

theorem exchange_of_ignores (h : pr.Ignores msg) : pr.exchange (.read msg) = [] := by
  unfold exchange
  split
  · case h_1 heq => cases heq
  · case h_2 accepted heq =>
      cases heq
      exact if_neg fun hphase => h hphase accepted rfl
  · rfl

theorem afterRead_of_ignores (h : pr.Ignores msg) :
    (pr.afterRead msg).client.config = pr.client.config ∧
      ((pr.afterRead msg).phase = .sendConfig ∨ (pr.afterRead msg).phase = .awaitConfig →
        (pr.afterRead msg).client.id.isSome ∨ pr.afterRead msg = pr) := by
  by_cases hphase : pr.phase = .awaitConfig
  · -- `push_config` fails on any other message, and has not touched the table
    obtain ⟨hclient, hsend, hawait⟩ := afterRead_awaitConfig hphase msg
    rw [Client.pushConfig_of_ne (h hphase)] at hclient
    exact ⟨congrArg Client.config hclient, fun hor => (hor.elim hsend hawait).elim⟩
  · unfold afterRead
    split
    · split
      · exact ⟨rfl, fun _ => Or.inl rfl⟩
      · exact ⟨rfl, by simp⟩
    · case h_2 hawait => exact absurd hawait hphase
    · split
      · split
        · exact ⟨rfl, by simp⟩
        · exact ⟨rfl, fun _ => Or.inr rfl⟩
      · exact ⟨rfl, by simp⟩
      · exact ⟨rfl, by simp⟩
    · exact ⟨rfl, fun _ => Or.inr rfl⟩

end Ignores

namespace Kept

variable {configured : List Port} {pr pr' : ClientProc} {done : List Exchange}

/-- The phase and the connection do not matter. -/
theorem of_config (h : pr.Kept configured done) (hconfig : pr'.client.config = pr.client.config)
    (hid : pr'.phase = .sendConfig ∨ pr'.phase = .awaitConfig → pr'.client.id.isSome) :
    pr'.Kept configured done where
  acceptConflict := by rw [hconfig, h.acceptConflict]
  id := hid
  keys := by rw [hconfig]; exact h.keys
  pushed := h.pushed

/-- The keys of the table are pushed. -/
theorem push (h : pr.Kept configured done) :
    pr.Kept configured (done ++ [.pushed pr.client.config.links.keys]) where
  acceptConflict := h.acceptConflict
  id := h.id
  keys p := by rw [passes_pushed]; exact h.keys p
  pushed before ports hbefore := by
    rcases List.prefix_concat_iff.mp hbefore with heq | hdone
    · obtain ⟨rfl, hports⟩ := List.append_inj' heq rfl
      cases hports
      exact h.keys
    · exact h.pushed before ports hdone

/-- The table is narrowed by the reply. -/
theorem reply (h : pr.Kept configured done) (hphase : pr.phase = .awaitConfig) (accepted : Accepted) :
    (pr.afterRead (some (.acceptConfig accepted))).Kept configured (done ++ [.replied accepted]) := by
  obtain ⟨hclient, hsend, hawait⟩ := afterRead_awaitConfig hphase (some (.acceptConfig accepted))
  refine ⟨?_, fun hor => (hor.elim hsend hawait).elim, fun p => ?_, fun before ports hbefore => ?_⟩
  · rw [hclient, Client.pushConfig_acceptConflict, h.acceptConflict]
  · -- `retain` keeps the keys that the reply grants
    rw [hclient, Client.receivedReply, passes_replied,
      Client.mem_keys_pushConfig (h.id (Or.inr hphase)) h.acceptConflict, h.keys p, and_assoc]
  · rcases List.prefix_concat_iff.mp hbefore with heq | hdone
    · cases (List.append_inj' heq rfl).2
    · exact h.pushed before ports hdone

theorem read (h : pr.Kept configured done) (msg : Option Server.JsonMessage) :
    (pr.afterRead msg).Kept configured (done ++ pr.exchange (.read msg)) := by
  by_cases hreply : pr.phase = .awaitConfig ∧ ∃ accepted, msg = some (.acceptConfig accepted)
  · obtain ⟨hphase, accepted, rfl⟩ := hreply
    have hexchange : pr.exchange (.read (some (.acceptConfig accepted))) = [.replied accepted] :=
      if_pos hphase
    rw [hexchange]
    exact h.reply hphase accepted
  · have hignores : pr.Ignores msg := fun hphase accepted hmsg => hreply ⟨hphase, accepted, hmsg⟩
    obtain ⟨hconfig, hid⟩ := afterRead_of_ignores hignores
    rw [exchange_of_ignores hignores, List.append_nil]
    refine h.of_config hconfig fun hor => ?_
    rcases hid hor with hid | hsame
    · exact hid
    · rw [hsame] at hor ⊢
      exact h.id hor

/-- **One action of `exec`.** -/
theorem step (h : pr.Kept configured done) {a : ExecAct} (hstep : pr.step a = some pr') :
    pr'.Kept configured (done ++ pr.exchange a) := by
  cases a with
  | write result =>
      obtain ⟨msg, -, rfl⟩ := Option.map_eq_some_iff.mp hstep
      have hkeep : pr.Kept configured (done ++ pr.exchange (.write result)) := by
        rcases exchange_write pr result with hnone | hpushed
        · rw [hnone, List.append_nil]
          exact h
        · rw [hpushed]
          exact h.push
      refine hkeep.of_config (congrArg Client.config (afterWrite_client pr _)) fun hor => ?_
      rw [afterWrite_client]
      exact h.id (afterWrite_phase hor)
  | read msg =>
      obtain ⟨-, hstep⟩ := Option.ite_none_right_eq_some.mp hstep
      cases hstep
      exact h.read msg
  | reconnect q =>
      obtain ⟨-, hstep⟩ := Option.ite_none_right_eq_some.mp hstep
      have hnone : pr.exchange (.reconnect q) = [] := rfl
      rw [hnone, List.append_nil]
      cases q with
      | some q =>
          cases hstep
          exact h.of_config rfl (by simp)
      | none =>
          cases hstep
          exact h.of_config rfl (by simp)

end Kept

theorem kept_connected {config : ClientConfig} (hconflict : config.acceptConflict = true)
    (q : ConnId) : (connected config q).Kept config.links.keys [] where
  acceptConflict := hconflict
  id := by simp [connected]
  keys p := by simp [connected, Passes]
  pushed before ports h := by simp at h

/-! ## What is pushed in a run

Each `PushConfig` is described by the exchanges before it. From this the condition for all of them
is read off: no reply may narrow the links by some port and leave another one. -/

section Run

variable {config : ClientConfig} {q : ConnId} {acts : List ExecAct} {pr : ClientProc}

/-- **What every `PushConfig` asks for**: the configured ports that every earlier partial reply
with ports has granted. -/
theorem mem_pushed_iff (hconflict : config.acceptConflict = true)
    (hrun : run step (connected config q) acts = some pr) {before : List Exchange}
    {ports : List Port} (hpushed : before ++ [.pushed ports] <+: exchanges config q acts) {p : Port} :
    p ∈ ports ↔ p ∈ config.links.keys ∧ Passes before p := by
  have hkept : pr.Kept config.links.keys ([] ++ exchanges config q acts) :=
    run_invariant_outputs (P := Kept config.links.keys) (fun _ _ _ _ h hstep => h.step hstep)
      (kept_connected hconflict q) hrun
  exact hkept.pushed before ports hpushed p

/-- **Exactly when reconnecting keeps the configured links.** Every `PushConfig` of the run asks for
all ports the client was configured with, if and only if the partial replies before it each grant
no port or all of these ports. -/
theorem pushes_configured_iff (hconflict : config.acceptConflict = true)
    (hrun : run step (connected config q) acts = some pr) :
    (∀ ports, .pushed ports ∈ exchanges config q acts →
        ports.toFinset = config.links.keys.toFinset) ↔
      ∀ before ports, before ++ [.pushed ports] <+: exchanges config q acts →
        ∀ granted, .replied (.part granted) ∈ before →
          granted = [] ∨ ∀ p ∈ config.links.keys, p ∈ granted := by
  constructor
  · intro h before ports hpushed granted hgranted
    by_contra hnot
    obtain ⟨hne, p, hp, hrefused⟩ : granted ≠ [] ∧ ∃ p ∈ config.links.keys, p ∉ granted := by
      simpa using hnot
    -- a port that an earlier reply has refused is missing from this push
    have heq : ports.toFinset = config.links.keys.toFinset := h ports (hpushed.subset (by simp))
    have hmem : p ∈ ports := by
      rw [← List.mem_toFinset, heq, List.mem_toFinset]
      exact hp
    exact hrefused (((mem_pushed_iff hconflict hrun hpushed).mp hmem).2 granted hgranted hne)
  · intro h ports hmem
    obtain ⟨before, after, hsplit⟩ := List.append_of_mem hmem
    have hpushed : before ++ [.pushed ports] <+: exchanges config q acts :=
      ⟨after, by rw [hsplit, List.append_assoc]; rfl⟩
    ext p
    rw [List.mem_toFinset, List.mem_toFinset, mem_pushed_iff hconflict hrun hpushed]
    refine and_iff_left_of_imp fun hp granted hgranted hne => ?_
    exact (h before ports hpushed granted hgranted).resolve_left hne p hp

end Run

/-! ## A port that is lost -/

open PortSystem (home)

def handshake (id : Nat) (accepted : Accepted) : List ExecAct :=
  [.write .ok, .read (some (.acceptClient id)), .write .ok, .read (some (.acceptConfig accepted))]

def portTaken : List ExecAct :=
  handshake 7 (.part [⟨53, .udp⟩]) ++ .read none :: .reconnect (some 1) :: handshake 8 .all

def allTaken : List ExecAct :=
  handshake 7 (.part []) ++ .reconnect (some 1) :: handshake 8 .all

/-- A port that was in use in the first session is not requested in the second one. -/
theorem not_pushes_configured :
    home.config.acceptConflict = true ∧ (run step (connected home.config 0) portTaken).isSome ∧
      ¬ ∀ ports, .pushed ports ∈ exchanges home.config 0 portTaken →
          ports.toFinset = home.config.links.keys.toFinset := by
  refine ⟨rfl, rfl, fun h => ?_⟩
  have hlost := h [⟨53, .udp⟩] (by decide)
  exact absurd hlost (by decide)

/-- When no port was free, both are requested again. -/
theorem pushes_configured_iff_allTaken :
    (run step (connected home.config 0) allTaken).isSome ∧
      ∀ ports, .pushed ports ∈ exchanges home.config 0 allTaken →
        ports.toFinset = home.config.links.keys.toFinset := by
  refine ⟨rfl, (pushes_configured_iff rfl rfl).mpr ?_⟩
  intro before ports hpushed granted hgranted
  have hmem : .replied (.part granted) ∈ exchanges home.config 0 allTaken :=
    hpushed.subset (List.mem_append_left _ hgranted)
  have hlist : exchanges home.config 0 allTaken
      = [.pushed [⟨53, .udp⟩, ⟨80, .tcp⟩], .replied (.part []),
        .pushed [⟨53, .udp⟩, ⟨80, .tcp⟩], .replied .all] := by decide
  rw [hlist] at hmem
  left
  simpa using hmem

end ClientProc

/-! ## The clients of a world

The runs above are those of a client alone, with any replies. In the system the replies come from
the controllers, so its clients have fewer runs, and what holds of all runs holds of theirs. -/

namespace World

/-- The action of `exec` behind an action of a client. -/
def execAct (w : World) (pr : ClientProc) : ClientAct → Option ClientProc.ExecAct
  | .write result => some (.write result)
  | .read true => some (.read (w.down pr.conn).head?)
  | .read false => some (.read none)
  | .reconnect q => some (.reconnect q)
  | _ => none

/-- What the client `k` exchanges with the server in a step. -/
def exchangeOf (k : ClientId) (w : World) : Act → List ClientProc.Exchange
  | .client k' a =>
      if k' = k then (w.procs k).elim [] fun pr => (w.execAct pr a).elim [] pr.exchange else []
  | _ => []

theorem procStep_exec {w w' : World} {k : ClientId} {pr : ClientProc} {a : ClientAct}
    (h : w.procStep k pr a = some w') :
    ∃ e pr', w.execAct pr a = some e ∧ pr.step e = some pr' ∧
      w'.procs = Function.update w.procs k (some pr') := by
  cases procStep_does h with
  | sent msg result hmsg | lost msg result hmsg =>
      exact ⟨_, pr.afterWrite result.written, rfl, by simp [ClientProc.step, hmsg], rfl⟩
  | received msg rest hreading hdown =>
      refine ⟨_, _, rfl, if_pos hreading, ?_⟩
      rw [hdown]
      rfl
  | readFails hreading => exact ⟨_, _, rfl, if_pos hreading, rfl⟩
  | reconnect q u hphase hu =>
      exact ⟨_, _, rfl, if_pos hphase, by rw [← connect_procs hu]; rfl⟩
  | giveUp hphase => exact ⟨_, _, rfl, if_pos hphase, rfl⟩

/-- What a step of the client `k` does to its process. -/
inductive ProcEffect (resolve : String → Option CacheAddr) (w w' : World) (k : ClientId) :
    ClientAct → Prop
  | start {q : ConnId} {config : List Config.Link} {acceptConflict : Bool}
      {heartbeatInterval : Option UInt64} {retryTimes : UInt32} {links : Links}
      (hbuilt : w.reg.built k = none) (hlinks : buildLinks resolve ∅ config = .ok links)
      (hprocs : w'.procs = Function.update w.procs k
        (some (.connected ⟨links, acceptConflict, heartbeatInterval, retryTimes⟩ q))) :
      ProcEffect resolve w w' k (.start q config acceptConflict heartbeatInterval retryTimes)
  | exec {a : ClientAct} {e : ClientProc.ExecAct} {pr pr' : ClientProc}
      (hpr : w.procs k = some pr) (hact : w.execAct pr a = some e) (hstep : pr.step e = some pr')
      (hprocs : w'.procs = Function.update w.procs k (some pr')) : ProcEffect resolve w w' k a
  | channel {a : ClientAct} (hact : ∀ pr, w.execAct pr a = none) (hprocs : w'.procs = w.procs) :
      ProcEffect resolve w w' k a

theorem clientStep_proc {resolve : String → Option CacheAddr} {w w' : World} {k : ClientId}
    {a : ClientAct} (h : w.clientStep resolve k a = some w') : ProcEffect resolve w w' k a := by
  cases clientStep_does h with
  | start q config _ _ _ links u hbuilt hlinks hu =>
      exact .start hbuilt hlinks (by rw [← connect_procs hu]; rfl)
  | openTunnel channel q u _ _ hu =>
      have hprocs : u.procs = w.procs := connect_procs hu
      exact .channel (fun _ => rfl) hprocs
  | dropChannel channel => exact .channel (fun _ => rfl) rfl
  | proc _ pr _ hpr hw =>
      obtain ⟨e, pr', hact, hstep, hprocs⟩ := procStep_exec hw
      exact .exec hpr hact hstep hprocs

/-- The client `k` was started with this configuration in the run. -/
def StartedWith (resolve : String → Option CacheAddr) (k : ClientId) (acts : List Act)
    (config : ClientConfig) : Prop :=
  ∃ q links, buildLinks resolve ∅ links = .ok config.links ∧
    .client k (.start q links config.acceptConflict config.heartbeatInterval config.retryTimes) ∈ acts

/-- What the run `acts` to `w` says of the client `k`. -/
structure Executes (resolve : String → Option CacheAddr) (k : ClientId) (w : World)
    (acts : List Act) : Prop where
  reached : run (step resolve) init acts = some w
  notStarted : w.procs k = none → outputs (step resolve) (exchangeOf k) init acts = []
  started : ∀ pr, w.procs k = some pr → ∃ config q execs, StartedWith resolve k acts config ∧
    run ClientProc.step (.connected config q) execs = some pr ∧
    ClientProc.exchanges config q execs = outputs (step resolve) (exchangeOf k) init acts

namespace Executes

variable {resolve : String → Option CacheAddr} {k : ClientId} {w w' : World} {acts : List Act}
  {a : Act}

/-- A step that is none of the client's. -/
theorem keep (h : Executes resolve k w acts) (hstep : w.step resolve a = some w')
    (hnone : exchangeOf k w a = []) (hprocs : w'.procs k = w.procs k) :
    Executes resolve k w' (acts ++ [a]) := by
  have houtputs : outputs (World.step resolve) (exchangeOf k) init (acts ++ [a])
      = outputs (World.step resolve) (exchangeOf k) init acts := by
    rw [outputs_concat h.reached, hnone, List.append_nil]
  refine ⟨run_concat h.reached hstep, ?_, ?_⟩
  · rw [hprocs, houtputs]
    exact h.notStarted
  · rw [hprocs, houtputs]
    intro pr hpr
    obtain ⟨config, q, execs, ⟨q', links, hlinks, hmem⟩, hexec⟩ := h.started pr hpr
    exact ⟨config, q, execs, ⟨q', links, hlinks, List.mem_append_left _ hmem⟩, hexec⟩

theorem client (h : Executes resolve k w acts) (hlabelled : w.Labelled) {a : ClientAct}
    (hstep : w.step resolve (.client k a) = some w') :
    Executes resolve k w' (acts ++ [.client k a]) := by
  have hexchange : ∀ pr, w.procs k = some pr →
      exchangeOf k w (.client k a) = (w.execAct pr a).elim [] pr.exchange := by
    intro pr hpr
    simp [exchangeOf, hpr]
  cases clientStep_proc hstep with
  | start hbuilt hlinks hprocs =>
      have hfresh : w.procs k = none := by
        by_contra hne
        obtain ⟨pr, hpr⟩ := Option.ne_none_iff_exists'.mp hne
        obtain ⟨built, hbuilt', -⟩ := (hlabelled.procs k pr hpr).links
        rw [hbuilt] at hbuilt'
        cases hbuilt'
      refine ⟨run_concat h.reached hstep, by simp [hprocs], fun pr hpr => ?_⟩
      rw [hprocs, Function.update_self] at hpr
      cases hpr
      refine ⟨_, _, [], ⟨_, _, hlinks, List.mem_append_right _ (List.mem_singleton.mpr rfl)⟩, rfl, ?_⟩
      rw [outputs_concat h.reached, h.notStarted hfresh]
      simp [exchangeOf, hfresh, ClientProc.exchanges, outputs]
  | @exec _ e pr pr' hpr hact hexec hprocs =>
      obtain ⟨config, q, execs, ⟨q', links, hlinks, hmem⟩, hrun, hout⟩ := h.started pr hpr
      refine ⟨run_concat h.reached hstep, by simp [hprocs], fun pr'' hpr'' => ?_⟩
      rw [hprocs, Function.update_self] at hpr''
      cases hpr''
      refine ⟨config, q, execs ++ [e], ⟨q', links, hlinks, List.mem_append_left _ hmem⟩,
        run_concat hrun hexec, ?_⟩
      rw [ClientProc.exchanges, outputs_concat hrun, outputs_concat h.reached, hexchange pr hpr, hact,
        ← hout]
      rfl
  | channel hact hprocs =>
      refine h.keep hstep ?_ (by rw [hprocs])
      rcases hpr : w.procs k with _ | pr
      · simp [exchangeOf, hpr]
      · rw [hexchange pr hpr, hact]
        rfl

theorem step (h : Executes resolve k w acts) (hlabelled : w.Labelled)
    (hstep : w.step resolve a = some w') : Executes resolve k w' (acts ++ [a]) := by
  cases a with
  | client k' a =>
      by_cases hk : k' = k
      · subst hk
        exact h.client hlabelled hstep
      · refine h.keep hstep (if_neg hk) ?_
        have hne : k ≠ k' := fun heq => hk heq.symm
        cases clientStep_proc hstep with
        | start _ _ hprocs => rw [hprocs, Function.update_of_ne hne]
        | exec _ _ _ hprocs => rw [hprocs, Function.update_of_ne hne]
        | channel _ hprocs => rw [hprocs]
  | server a => exact h.keep hstep rfl (by rw [(serverStep_effect hstep).procs])
  | controller c a =>
      obtain ⟨q, -, hsession⟩ := Option.bind_eq_some_iff.mp hstep
      exact h.keep hstep rfl (by rw [(sessionStep_effect hsession).procs])
  | env a => exact h.keep hstep rfl (by rw [(envStep_effect hstep).procs])

end Executes

/-- **Every client of the system runs `exec`**, from the configuration it was started with, and the
exchanges of this run are those of the client in the system. -/
theorem exec_of_run {resolve : String → Option CacheAddr} {k : ClientId} {w : World}
    {acts : List Act} (hrun : run (step resolve) init acts = some w) :
    Executes resolve k w acts := by
  have hinit : Executes resolve k init [] := ⟨rfl, fun _ => rfl, fun _ h => by cases h⟩
  have hinv : w.Labelled ∧ Executes resolve k w ([] ++ acts) := by
    refine run_invariant_history (P := fun w done => w.Labelled ∧ Executes resolve k w done) ?_
      ⟨labelled_init, hinit⟩ hrun
    rintro u done a v ⟨hlabelled, h⟩ hstep
    exact ⟨step_labelled hlabelled hstep, h.step hlabelled hstep⟩
  exact hinv.2

end World

end Rslinker
