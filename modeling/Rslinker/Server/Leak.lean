import Rslinker.Server.Exclusive

set_option autoImplicit false

/-! # Ports that nobody gives back

`cleanup` removes `self.ports` from `using_ports`, and `accept_config` sets `self.ports` after the
reply has been written. So when the write of the reply fails, the ports it has newly put into the
set stay there after the controller has finished. Every other failure leaves the set exact.

The condition is on the steps of the run, and the property on its states. A single write that fails
after a reservation leaves a port in the set that no later step takes out.
-/

namespace Rslinker.PortSystem

open Controller

/-- Every port in use is held by some controller. -/
def NoLeak (s : PortSystem) : Prop := ∀ p ∈ s.usingPorts, ∃ c, p ∈ s.heldBy c

/-- `self.ports` is empty until `accept_config` sets it. -/
def Unset (c : Controller) : Prop :=
  match c.phase with
  | .looping | .cleaning | .finished => True
  | _ => c.ports = ∅

def PortsUnset (s : PortSystem) : Prop := ∀ c ctl, s.controllers c = some ctl → Unset ctl

/-- The step is not a failing write of a reply behind which ports have been reserved. -/
def ReplyWritten (s : PortSystem) (a : Act) : Prop :=
  ∀ c ctl accepted success, a = .reply c false → s.controllers c = some ctl →
    ctl.phase = .replying accepted success → success = []

/-! ## What every step preserves

Before `accept_config` is over `self.ports` is empty, and a controller holds what it has reserved
by virtue of its phase alone. At the reply the ports become its own, or they are lost. -/

theorem unset_of_empty {c : Controller} (h : c.ports = ∅) : Unset c := by
  unfold Unset
  split
  · trivial
  · trivial
  · trivial
  · exact h

theorem step_portsUnset {s t : PortSystem} {a : Act} (h : PortsUnset s)
    (hstep : s.step a = some t) : PortsUnset t := by
  -- up to the reply a step leaves `ports`, from the reply on nothing is asked of them
  cases step_rel hstep with
  | fromServer c hnew =>
      have hunset : Unset fromServer := rfl
      exact set_forall h hunset c s.usingPorts s.lock
  | acceptClient c ctl written hctl hp =>
      have hempty : ctl.ports = ∅ := by simpa [Unset, hp] using h c ctl hctl
      refine set_forall h ?_ c s.usingPorts s.lock
      exact unset_of_empty hempty
  | pushConfig c ctl ports interval hctl hp | noConfig c ctl msg hmsg hctl hp =>
      have hempty : ctl.ports = ∅ := by simpa [Unset, hp] using h c ctl hctl
      refine set_forall h ?_ c s.usingPorts s.lock
      exact unset_of_empty hempty
  | reserve c ctl ports hctl hp hlock =>
      have hempty : ctl.ports = ∅ := by simpa [Unset, hp] using h c ctl hctl
      refine set_forall h ?_ c _ (some c)
      exact unset_of_empty hempty
  | replied c ctl accepted success hctl hp | replyFailed c ctl accepted success hctl hp =>
      exact set_forall h (by simp [Unset]) c s.usingPorts none
  | mainLoop c ctl event hctl hp =>
      refine set_forall h ?_ c s.usingPorts s.lock
      cases event.ends
      · simp [Unset]
      · simp [Unset]
  | cleanup c ctl hctl hp hlock => exact set_forall h (by simp [Unset]) c _ s.lock

/-- A step whose controller holds all it held before, and the new ports in the set, leaks nothing. -/
theorem NoLeak.set {s : PortSystem} (h : NoLeak s) (c : ControllerId) (ctl : Controller)
    (used : Finset Port) (lock : Option ControllerId)
    (hused : ∀ p ∈ used, p ∈ ctl.held ∨ p ∈ s.usingPorts ∧ p ∉ s.heldBy c) :
    NoLeak ({ s with usingPorts := used, lock := lock }.set c ctl) := by
  intro p hp
  rcases hused p hp with hc | ⟨hin, hnot⟩
  · exact ⟨c, by rwa [heldBy_set_self]⟩
  · obtain ⟨d, hd⟩ := h p hin
    have hdc : d ≠ c := by
      rintro rfl
      exact hnot hd
    exact ⟨d, by rwa [heldBy_set_of_ne _ _ hdc]⟩

/-- **A step leaks nothing**, unless it is the failing write of a reply. -/
theorem step_noLeak {s t : PortSystem} {a : Act} (h : NoLeak s) (hu : PortsUnset s)
    (hC : ReplyWritten s a) (hstep : s.step a = some t) : NoLeak t := by
  obtain ⟨ctl', used, lock, rfl, heff⟩ := step_cases hstep
  refine h.set a.actor ctl' used lock ?_
  intro p hp
  rcases heff with ⟨rfl, hheld⟩ | ⟨ports, rfl, hheld⟩ |
    ⟨ctl, accepted, success, written, ha, hctl, hphase, rfl, hheld⟩ | ⟨rfl, hheld⟩
  · rw [hheld]
    by_cases hmem : p ∈ s.heldBy a.actor
    · exact Or.inl hmem
    · exact Or.inr ⟨hp, hmem⟩
  · -- what `accept_config` puts into the set is what it reserves for this controller
    rw [hheld]
    rw [(reserve_reserved s.usingPorts ports).usingPorts, Finset.mem_union] at hp
    by_cases hmem : p ∈ s.heldBy a.actor
    · exact Or.inl (Finset.mem_union_left _ hmem)
    · rcases hp with hp | hp
      · exact Or.inr ⟨hp, hmem⟩
      · exact Or.inl (Finset.mem_union_right _ hp)
  · -- the reply turns the reservation into `ports`; when it fails, the reservation is lost
    have hnone : ctl.ports = ∅ := by
      have hunset := hu _ ctl hctl
      simpa [Unset, hphase] using hunset
    have hold : s.heldBy a.actor = success.toFinset := by
      simp [heldBy_eq hctl, held, hphase, hnone]
    have hnew : ctl'.held = success.toFinset := by
      cases written
      · have hempty := hC _ ctl accepted success ha hctl hphase
        simp [hheld, hnone, hempty]
      · simpa using hheld
    rw [hnew, hold]
    by_cases hmem : p ∈ success.toFinset
    · exact Or.inl hmem
    · exact Or.inr ⟨hp, hmem⟩
  · exact Or.inr (mem_release.mp hp)

/-! ## Exactness of the shared set

While `accept_config` or `cleanup` is in progress the set and the ports of the controllers may
differ, since both change one after the other. The statement is about the states in between. -/

def Settled (s : PortSystem) : Prop :=
  ∀ c ctl, s.controllers c = some ctl →
    ctl.phase = .accepting ∨ ctl.phase = .looping ∨ ctl.phase = .finished

/-- `using_ports` is the union of the ports of the controllers that still run. -/
def UsingExact (s : PortSystem) : Prop :=
  ∀ p, p ∈ s.usingPorts ↔
    ∃ c ctl, s.controllers c = some ctl ∧ ctl.phase ≠ .finished ∧ p ∈ ctl.ports

theorem mem_heldBy_settled {s : PortSystem} (hs : Settled s) {c : ControllerId} {p : Port} :
    p ∈ s.heldBy c ↔ ∃ ctl, s.controllers c = some ctl ∧ ctl.phase ≠ .finished ∧ p ∈ ctl.ports := by
  rcases hc : s.controllers c with _ | ctl
  · simp [heldBy, hc]
  · rw [heldBy_eq hc]
    rcases hs c ctl hc with hp | hp | hp
    · simp [held, hp]
    · simp [held, hp]
    · simp [held, hp]

/-- What every run leaks: nothing, while no such write fails in it. -/
theorem run_noLeak {acts : List Act} {s : PortSystem} (hrun : run step init acts = some s)
    (hC : StepsMeet step ReplyWritten init acts) : NoLeak s ∧ PortsUnset s := by
  have hinit : NoLeak init ∧ PortsUnset init := by
    constructor
    · simp [NoLeak, init]
    · simp [PortsUnset, init]
  refine run_invariant_on (P := fun s => NoLeak s ∧ PortsUnset s) ?_ hinit hC hrun
  intro s a t h hCa hstep
  exact ⟨step_noLeak h.1 h.2 hCa hstep, step_portsUnset h.2 hstep⟩

/-- **No reserved port is leaked**, whatever fails in whatever controller, as long as no write of a
reply fails after ports have been reserved. -/
theorem usingPorts_exact {acts : List Act} {s : PortSystem} (hrun : run step init acts = some s)
    (hC : StepsMeet step ReplyWritten init acts) (hs : Settled s) :
    UsingExact s ∧
      ((∀ c ctl, s.controllers c = some ctl → ctl.phase = .finished) → s.usingPorts = ∅) := by
  have hleak : NoLeak s := (run_noLeak hrun hC).1
  have hexact : UsingExact s := by
    intro p
    simp only [← mem_heldBy_settled hs]
    constructor
    · exact hleak p
    · intro hp
      obtain ⟨c, hc⟩ := hp
      exact heldBy_subset_usingPorts ⟨acts, hrun⟩ c hc
  refine ⟨hexact, fun hall => Finset.eq_empty_of_forall_notMem ?_⟩
  intro p hp
  obtain ⟨c, ctl, hctl, hrunning, -⟩ := (hexact p).mp hp
  exact hrunning (hall c ctl hctl)

def goneBeforeReply : List Act :=
  [.fromServer 0, .acceptClient 0 true, .recvConfig 0 (some (.pushConfig [⟨80, .tcp⟩] none)),
    .reserve 0, .reply 0 false, .cleanup 0]

/-- After its only controller has finished, the server keeps a port in use. -/
theorem not_usingPorts_exact_goneBeforeReply :
    ¬ ∀ s : PortSystem, Reaches step init s → Settled s →
        UsingExact s ∧
          ((∀ c ctl, s.controllers c = some ctl → ctl.phase = .finished) → s.usingPorts = ∅) := by
  intro hall
  have hrun : ∃ s : PortSystem, run step init goneBeforeReply = some s ∧
      s.usingPorts = {⟨80, .tcp⟩} ∧
      ∀ c ctl, s.controllers c = some ctl → ctl.phase = .finished := by
    refine ⟨_, rfl, by decide, ?_⟩
    intro c ctl hc
    by_cases h0 : c = 0
    · subst h0
      cases hc
      rfl
    · simp [set, init, Function.update, Act.actor, h0] at hc
  obtain ⟨s, hrun, hused, hfin⟩ := hrun
  have hsettled : Settled s := fun c ctl hc => Or.inr (Or.inr (hfin c ctl hc))
  have hempty := (hall s ⟨_, hrun⟩ hsettled).2 hfin
  rw [hused] at hempty
  exact absurd hempty (by decide)

def disconnected : List Act :=
  [.fromServer 0, .acceptClient 0 true, .recvConfig 0 (some (.pushConfig [⟨80, .tcp⟩] none)),
    .reserve 0, .reply 0 true, .mainLoop 0 .emptyMessage, .cleanup 0]

/-- The rule at the end of that run. -/
theorem usingPorts_exact_disconnected :
    ∃ s : PortSystem, run step init disconnected = some s ∧ UsingExact s := by
  have hrun : ∃ s : PortSystem, run step init disconnected = some s ∧ Settled s := by
    refine ⟨_, rfl, ?_⟩
    intro c ctl hc
    by_cases h0 : c = 0
    · subst h0
      cases hc
      exact Or.inr (Or.inr rfl)
    · simp [set, init, Function.update, Act.actor, h0] at hc
  obtain ⟨s, hrun, hs⟩ := hrun
  refine ⟨s, hrun, (usingPorts_exact hrun (stepsMeet_of_forall ?_ _) hs).1⟩
  simp [disconnected, ReplyWritten]

end Rslinker.PortSystem
