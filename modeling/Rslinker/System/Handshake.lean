import Rslinker.Client.Session
import Rslinker.Server.Leak

set_option autoImplicit false

/-! # The handshake of a client and its controller

`Client::push_config` sends the keys of the client's links, `Controller::accept_config` reserves
those of them that are free and replies with `All` or with the list of them, and the client keeps
the links the reply names. Other controllers may take any steps in between.

`push_config` and `accept_config` are two ends of one exchange, and each of them may fail when the
other one does not. So it is not enough that the client has succeeded: the two agree exactly when
the write of the reply has succeeded on the server as well, or there is nothing to agree on.
-/

namespace Rslinker.PortSystem

open Controller

/-! ## Steps of other controllers

A client and its controller are two parties, but the set of ports is shared. The other controllers
may reserve and release ports at any point of the handshake, except while this controller holds the
write lock, from its loop to its reply. -/

/-- **Frame rule.** A run of other controllers leaves a controller as it is. -/
theorem run_controllers_of_ne {s t : PortSystem} {acts : List Act} (h : run step s acts = some t)
    {c : ControllerId} (hc : ∀ a ∈ acts, a.actor ≠ c) : t.controllers c = s.controllers c := by
  have hmeet : StepsMeet step (fun _ a => a.actor ≠ c) s acts :=
    stepsMeet_of_forall (fun a ha _ => hc a ha) s
  refine run_invariant_on (P := fun u => u.controllers c = s.controllers c) ?_ rfl hmeet h
  intro u a v hu ha hstep
  exact (step_controllers_of_ne hstep ha).trans hu

/-! ## The steps of `accept_config`

The three steps of the controller, in the states in which they can be taken: the configuration is
read, the ports are reserved under the lock, and the reply is written. The write can fail, although
the reply has arrived. -/

theorem step_recvConfig {s t : PortSystem} {c : ControllerId} {ports : List Port}
    {interval : Option UInt64}
    (h : s.step (.recvConfig c (some (.pushConfig ports interval))) = some t) :
    ∃ ctl, t.controllers c = some ctl ∧ ctl.phase = .locking ports ∧
      ctl.heartbeatInterval = interval := by
  cases step_rel h with
  | pushConfig _ ctl => exact ⟨_, set_controllers_self _ _ _, rfl, rfl⟩
  | noConfig _ ctl _ hmsg => exact absurd rfl (hmsg ports interval)

theorem step_reserve {s t : PortSystem} {c : ControllerId} {ctl : Controller} {ports : List Port}
    (h : s.step (.reserve c) = some t) (hctl : s.controllers c = some ctl)
    (hphase : ctl.phase = .locking ports) :
    t.usingPorts = (reserve s.usingPorts ports).usingPorts ∧
      t.controllers c = some { ctl with
        phase := .replying (reserve s.usingPorts ports).accepted
          (reserve s.usingPorts ports).success } := by
  cases step_rel h with
  | reserve _ ctl' ports' hctl' hphase' =>
      obtain rfl := Option.some.inj (hctl'.symm.trans hctl)
      cases hphase'.symm.trans hphase
      exact ⟨rfl, set_controllers_self _ _ _⟩

theorem step_reply {s t : PortSystem} {c : ControllerId} {ctl : Controller} {accepted : Accepted}
    {success : List Port} (h : s.step (.reply c true) = some t) (hctl : s.controllers c = some ctl)
    (hphase : ctl.phase = .replying accepted success) :
    t.controllers c = some { ctl with
      phase := .looping, ports := success.toFinset, monitors := startMonitors success.toFinset } := by
  cases step_rel h with
  | replied _ ctl' accepted' success' hctl' hphase' =>
      obtain rfl := Option.some.inj (hctl'.symm.trans hctl)
      cases hphase'.symm.trans hphase
      exact set_controllers_self _ _ _

theorem step_reply_failed {s t : PortSystem} {c : ControllerId} {ctl : Controller}
    (h : s.step (.reply c false) = some t) (hctl : s.controllers c = some ctl) :
    t.controllers c = some { ctl with phase := .cleaning } := by
  cases step_rel h with
  | replyFailed _ ctl' accepted' success' hctl' hphase' =>
      obtain rfl := Option.some.inj (hctl'.symm.trans hctl)
      exact set_controllers_self _ _ _

/-! ## The monitors of a controller

`start_monitors` is called once, behind a reply that has been written, and hires for `self.ports`.
Before that a controller has neither ports nor monitors, and no later step changes the one or the
other. So the monitors are at any time those of the ports the controller has. -/

theorem step_monitors {s t : PortSystem} {a : Act}
    (h : ∀ c ctl, s.controllers c = some ctl → ctl.monitors = startMonitors ctl.ports)
    (hstep : s.step a = some t) :
    ∀ c ctl, t.controllers c = some ctl → ctl.monitors = startMonitors ctl.ports := by
  cases step_rel hstep with
  | fromServer c hnew => exact set_forall h rfl c s.usingPorts s.lock
  | acceptClient c ctl written hctl hp => exact set_forall h (by exact h c ctl hctl) c s.usingPorts s.lock
  | pushConfig c ctl ports interval hctl hp | noConfig c ctl msg hmsg hctl hp =>
      exact set_forall h (by exact h c ctl hctl) c s.usingPorts s.lock
  | reserve c ctl ports hctl hp hlock => exact set_forall h (by exact h c ctl hctl) c _ (some c)
  | replied c ctl accepted success hctl hp => exact set_forall h rfl c s.usingPorts none
  | replyFailed c ctl accepted success hctl hp =>
      exact set_forall h (by exact h c ctl hctl) c s.usingPorts none
  | mainLoop c ctl event hctl hp => exact set_forall h (by exact h c ctl hctl) c s.usingPorts s.lock
  | cleanup c ctl hctl hp hlock => exact set_forall h (by exact h c ctl hctl) c _ s.lock

/-- In every reachable state a controller has the monitors of its ports, and until its reply is
written it has no ports. -/
theorem reaches_controller {s : PortSystem} (h : Reaches step init s) {c : ControllerId}
    {ctl : Controller} (hctl : s.controllers c = some ctl) :
    ctl.monitors = startMonitors ctl.ports ∧ Unset ctl := by
  refine ⟨?_, ?_⟩
  · refine run_invariant (P := fun s : PortSystem => ∀ c ctl, s.controllers c = some ctl →
      ctl.monitors = startMonitors ctl.ports) ?_ (by simp [init]) h c ctl hctl
    exact fun s a t h hstep => step_monitors h hstep
  · refine run_invariant (P := PortsUnset) ?_ (by simp [PortsUnset, init]) h c ctl hctl
    exact fun s a t h hstep => step_portsUnset h hstep

/-! ## The client's side

The client does not check the reply against what it asked for: it keeps the links that the reply
names. That these are the granted ones follows from what the loop puts into the reply. -/

/-- The links a client keeps on the reply of the loop of `accept_config` are those of the ports
this loop has granted. -/
theorem pushConfig_reserve {client : Client} {used : Finset Port} {r : Reservation}
    (hr : r = reserve used client.config.links.keys) {client' : Client}
    (h : client.pushConfig (.ok (.acceptConfig r.accepted)) = (.ok, client')) :
    client'.config.links.keys.toFinset = r.success.toFinset ∧
      ∀ p t, client'.config.links.lookup p = some t ↔
        client.config.links.lookup p = some t ∧ p ∈ r.success := by
  have hmem : ∀ {p}, p ∈ r.success ↔ p ∈ client.config.links.keys ∧ p ∉ used := by
    intro p
    rw [hr]
    exact mem_reserve_success
  have hok : (client.pushConfig (.ok (.acceptConfig r.accepted))).1 = .ok := by
    rw [h]
  rcases Client.pushConfig_ok hok with ⟨hall, hc⟩ | ⟨ports, hpart, hc⟩
  · -- the reply is `All`: nothing was refused, so every link is granted
    have hfailed : r.failed = [] := by
      by_contra hne
      have : r.accepted = .part r.success := if_neg (by simpa using hne)
      rw [this] at hall
      cases hall
    have hsuccess : r.success.toFinset = client.config.links.keys.toFinset := by
      rw [hr] at hfailed ⊢
      exact reserve_success_of_failed_nil hfailed
    rw [h] at hc
    obtain rfl : client' = client := hc
    refine ⟨hsuccess.symm, fun p t => ⟨fun ht => ⟨ht, ?_⟩, fun ht => ht.1⟩⟩
    have hp : p ∈ client'.config.links.keys :=
      AList.mem_keys.mp (AList.lookup_isSome.mp (by simp [ht]))
    rwa [← List.mem_toFinset, hsuccess, List.mem_toFinset]
  · -- the reply is `Part`: its list is what was granted, and all of it was requested
    have hports : ports = r.success := by
      unfold Reservation.accepted at hpart
      split at hpart
      · cases hpart
      · cases hpart
        rfl
    rw [h] at hc
    obtain rfl : client' = _ := hc
    subst hports
    refine ⟨?_, fun p t => by simp [Links.lookup_retain]⟩
    ext p
    simp only [List.mem_toFinset, Links.mem_keys_retain, decide_eq_true_eq]
    exact ⟨fun hp => hp.2, fun hp => ⟨(hmem.mp hp).1, hp⟩⟩

/-- A link the client keeps on such a reply has been granted, so it keeps one if it has any. -/
theorem pushConfig_reserve_ne_empty {client client' : Client} {used : Finset Port} {r : Reservation}
    (hr : r = reserve used client.config.links.keys)
    (h : client.pushConfig (.ok (.acceptConfig r.accepted)) = (.ok, client'))
    (hlinks : client.config.links.keys ≠ []) : client'.config.links.keys ≠ [] := by
  intro hnone
  have hkeys := (pushConfig_reserve hr h).1
  rw [hnone, List.toFinset_nil] at hkeys
  have hsuccess : r.success = [] := List.toFinset_eq_empty_iff _ |>.mp hkeys.symm
  by_cases hfailed : r.failed = []
  · rw [hr] at hfailed hsuccess
    have hall := reserve_success_of_failed_nil hfailed
    rw [hsuccess, List.toFinset_nil] at hall
    exact hlinks (List.toFinset_eq_empty_iff _ |>.mp hall.symm)
  · -- nothing was granted and something refused: "No config was accepted"
    have hpart : r.accepted = .part [] := by
      rw [Reservation.accepted, if_neg (by simpa using hfailed), hsuccess]
    rw [hpart] at h
    unfold Client.pushConfig at h
    split at h
    · cases h
    · rename_i msg heq
      cases heq
      split at h
      · cases h
      · by_cases hconflict : client.config.acceptConflict
        · simp [hconflict, hlinks] at h
        · simp [hconflict] at h

theorem pushConfig_err {client client' : Client}
    {reply : Except Client.PushError Server.JsonMessage} {e : Client.PushError}
    (h : client.pushConfig reply = (.err e, client')) :
    client'.config.links = client.config.links := by
  have hfst : (client.pushConfig reply).1 ≠ .ok := by
    rw [h]
    simp
  have hc := Client.pushConfig_not_ok hfst
  rw [h] at hc
  rw [show client' = client from hc]

/-! ## What the two have agreed on

Of the links `links` the client keeps `kept`, the controller is left in the state `ctl`, and
`reserved` are the ports its `accept_config` has put into `using_ports`. The two sides have agreed
when all three speak of the same ports and the server listens on exactly these, on each with one
monitor of the kind the port names: `monitor::Tcp` for a port of TCP, `monitor::Udp` for one of
UDP, at the number of the port and with the port as the id of its employee. -/

structure Agreed (links kept : Links) (reserved : Finset Port) (ctl : Controller) : Prop where
  keys : kept.keys.toFinset = ctl.ports
  ports : ctl.ports = reserved
  tcp : ∀ addr p, ctl.monitors.count (.tcp addr p) =
    if p ∈ ctl.ports ∧ p.protocol = .tcp ∧ addr = p.port then 1 else 0
  udp : ∀ addr p, ctl.monitors.count (.udp addr p) =
    if p ∈ ctl.ports ∧ p.protocol = .udp ∧ addr = p.port then 1 else 0
  targets : ∀ p t, kept.lookup p = some t ↔ links.lookup p = some t ∧ p ∈ ctl.ports

/-- The reply of the loop has been written: the controller has the ports the loop has granted. -/
theorem agreed_of_written {client client' : Client} {used : Finset Port} {r : Reservation}
    {ctl : Controller} (hr : r = reserve used client.config.links.keys)
    (h : client.pushConfig (.ok (.acceptConfig r.accepted)) = (.ok, client'))
    (hports : ctl.ports = r.success.toFinset) (hmonitors : ctl.monitors = startMonitors ctl.ports) :
    Agreed client.config.links client'.config.links r.success.toFinset ctl := by
  obtain ⟨hkeys, hlookup⟩ := pushConfig_reserve hr h
  refine ⟨hkeys.trans hports.symm, hports, ?_, ?_, ?_⟩
  · exact fun addr p => by rw [hmonitors]; exact count_startMonitors_tcp _ addr p
  · exact fun addr p => by rw [hmonitors]; exact count_startMonitors_udp _ addr p
  · simpa [hports] using hlookup

/-- A controller without ports agrees with its client only if there was nothing to agree on: of
links that there are the client keeps one, since a reply that names none of them is an error. -/
theorem agreed_iff_of_no_ports {client client' : Client} {used : Finset Port} {r : Reservation}
    {ctl : Controller} (hr : r = reserve used client.config.links.keys)
    (h : client.pushConfig (.ok (.acceptConfig r.accepted)) = (.ok, client'))
    (hports : ctl.ports = ∅) (hmonitors : ctl.monitors = startMonitors ctl.ports) :
    Agreed client.config.links client'.config.links r.success.toFinset ctl ↔
      client.config.links.keys = [] := by
  constructor
  · intro hagreed
    by_contra hlinks
    have hnone : client'.config.links.keys.toFinset = ∅ := hagreed.keys.trans hports
    exact pushConfig_reserve_ne_empty hr h hlinks (List.toFinset_eq_empty_iff _ |>.mp hnone)
  · intro hlinks
    have hsuccess : r.success = [] := by
      rw [hr, hlinks]
      rfl
    exact agreed_of_written hr h (by rw [hports, hsuccess, List.toFinset_nil]) hmonitors

/-- **Handshake agreement.** Whatever is in use, whatever links the client has, and whatever the
other controllers do in between: when `push_config` succeeds on the reply of `accept_config`, the
two sides have agreed if and only if the write of the reply has returned `Ok` on the server, or
there was nothing to agree on. A write that puts the whole reply out and fails only then, in its
`flush`, leaves a client that counts on its links and a controller that ends without a port.
When `push_config` fails, on this or on any other reply, the links are unchanged. -/
theorem handshake_agreement_iff {c : ControllerId} {client : Client} {before after : List Act}
    {written : Bool} {s₀ s s₁ s₂ s₃ : PortSystem} (hreach : Reaches step init s₀)
    (hbefore : ∀ a ∈ before, a.actor ≠ c) (hafter : ∀ a ∈ after, a.actor ≠ c)
    (hrecv : run step s₀ (.recvConfig c (some client.pushedConfig) :: before) = some s)
    (hreserve : s.step (.reserve c) = some s₁) (hothers : run step s₁ after = some s₂)
    (hreply : s₂.step (.reply c written) = some s₃) :
    ∃ accepted success ctl₁ ctl₃,
      s₁.controllers c = some ctl₁ ∧ ctl₁.phase = .replying accepted success ∧
      s₃.controllers c = some ctl₃ ∧
      (∀ client', client.pushConfig (.ok (.acceptConfig accepted)) = (.ok, client') →
        (Agreed client.config.links client'.config.links (s₁.usingPorts \ s.usingPorts) ctl₃ ↔
          written = true ∨ client.config.links.keys = [])) ∧
      ∀ reply e client', client.pushConfig reply = (.err e, client') →
        client'.config.links = client.config.links := by
  obtain ⟨u, hu, hbefore'⟩ := run_cons.mp hrecv
  obtain ⟨ctl, hctl, hphase, -⟩ := step_recvConfig hu
  -- the others leave this controller alone, before and after its reservation
  rw [← run_controllers_of_ne hbefore' hbefore] at hctl
  obtain ⟨hused, hctl₁⟩ := step_reserve hreserve hctl hphase
  set r := reserve s.usingPorts client.config.links.keys with hr
  have hctl₂ := hctl₁
  rw [← run_controllers_of_ne hothers hafter] at hctl₂
  have hnew : s₁.usingPorts \ s.usingPorts = r.success.toFinset := by
    rw [hused, hr, reserve_usingPorts_sdiff]
  have hreach₂ : Reaches step init s₂ :=
    (((hreach.trans ⟨_, hrecv⟩).trans (.of_step hreserve)).trans ⟨_, hothers⟩)
  have hreach₃ : Reaches step init s₃ := hreach₂.trans (.of_step hreply)
  cases written with
  | true =>
      have hctl₃ := step_reply hreply hctl₂ rfl
      have hmonitors := (reaches_controller hreach₃ hctl₃).1
      refine ⟨r.accepted, r.success, _, _, hctl₁, rfl, hctl₃, ?_, fun _ _ _ => pushConfig_err⟩
      intro client' hpush
      rw [hnew]
      exact iff_of_true (agreed_of_written hr hpush rfl hmonitors) (Or.inl rfl)
  | false =>
      have hctl₃ := step_reply_failed hreply hctl₂
      -- before its reply is written a controller has no ports, and it will not get any
      have hports : ctl.ports = ∅ := (reaches_controller hreach₂ hctl₂).2
      have hmonitors := (reaches_controller hreach₃ hctl₃).1
      refine ⟨r.accepted, r.success, _, _, hctl₁, rfl, hctl₃, ?_, fun _ _ _ => pushConfig_err⟩
      intro client' hpush
      rw [hnew, or_iff_right Bool.false_ne_true]
      exact agreed_iff_of_no_ports hr hpush hports hmonitors

/-- A server on which the TCP port 80 is taken, with a controller that waits for a configuration:
another client has been served before. -/
def occupied : List Act :=
  [.fromServer 1, .acceptClient 1 true, .recvConfig 1 (some (.pushConfig [⟨80, .tcp⟩] none)),
    .reserve 1, .reply 1 true, .fromServer 0, .acceptClient 0 true]

def home : Client :=
  let target : CacheAddr := .socketAddr ⟨.v4 0, 9000⟩
  ⟨some 7, (AList.singleton ⟨80, .tcp⟩ (.rawTcp target)).insert ⟨53, .udp⟩ (.rawUdp target),
    true, none, 3⟩

/-- The rule at the handshake of these two. -/
theorem handshake_agreement_iff_home : ∃ (ctl : Controller) (client' : Client),
    home.pushConfig (.ok (.acceptConfig (.part [⟨53, .udp⟩]))) = (.ok, client') ∧
      Agreed home.config.links client'.config.links {⟨53, .udp⟩} ctl := by
  have hnone : ∀ a ∈ ([] : List Act), a.actor ≠ 0 := by simp
  obtain ⟨accepted, success, ctl₁, ctl₃, hctl₁, hphase, hctl₃, hok, -⟩ :=
    @handshake_agreement_iff 0 home [] [] true _ _ _ _ _ ⟨occupied, rfl⟩ hnone hnone rfl rfl rfl rfl
  cases hctl₁
  cases hphase
  cases hctl₃
  exact ⟨_, _, rfl, (hok _ rfl).mpr (Or.inl rfl)⟩

/-- The reply has come and the server's write of it has failed all the same: the client keeps its
UDP link, and no controller has the port. -/
theorem not_handshake_agreement_flush : ∃ (s₀ s s₁ s₃ : PortSystem) (ctl₃ : Controller)
    (client' : Client), Reaches step init s₀ ∧
      s₀.step (.recvConfig 0 (some home.pushedConfig)) = some s ∧
      s.step (.reserve 0) = some s₁ ∧ s₁.step (.reply 0 false) = some s₃ ∧
      s₃.controllers 0 = some ctl₃ ∧
      home.pushConfig (.ok (.acceptConfig (reserve s.usingPorts home.config.links.keys).accepted))
        = (.ok, client') ∧
      client'.config.links.keys = [⟨53, .udp⟩] ∧ s₁.usingPorts \ s.usingPorts = {⟨53, .udp⟩} ∧
      ctl₃.ports = ∅ ∧ ctl₃.monitors = 0 ∧
      ¬ Agreed home.config.links client'.config.links (s₁.usingPorts \ s.usingPorts) ctl₃ := by
  refine ⟨_, _, _, _, _, _, ⟨occupied, rfl⟩, rfl, rfl, rfl, rfl, rfl, rfl, by decide, rfl, rfl, ?_⟩
  intro hagreed
  exact absurd hagreed.ports (by decide)

end Rslinker.PortSystem
