import Rslinker.Server.Served

set_option autoImplicit false

/-! # Starting the monitors one by one

`start_monitors` goes through the `HashSet` of the ports of its controller, in no particular order,
and the monitors it has started run while it starts the next one. In `MonitorSystem` all of them
start in the step of the reply. Here the start of each is a step of its own, and a controller takes
no other step until `start_monitors` has returned; a run of `MonitorSystem` is one of these runs.

The finer system is needed where a monitor may fail before the last one is hired. For everything
else the coarser one is enough, and its runs are shown to be runs of this one.
-/

namespace Rslinker

/-- The controllers with their monitors, and the ports that `start_monitors` has not come to. -/
structure StartSystem where
  monitors : MonitorSystem
  waiting : ControllerId → Finset Port

namespace StartSystem

open Controller PortSystem MonitorSystem

inductive Act
  /-- A step of a controller or of a monitor. -/
  | system (a : MonitorSystem.Act)
  /-- The body of the loop of `start_monitors`. -/
  | start (c : ControllerId) (p : Port)
  deriving DecidableEq, Repr

def init : StartSystem := ⟨.init, fun _ => ∅⟩

/-- `start_monitors` of the controller that takes the step does not run. -/
def Returned (s : StartSystem) : MonitorSystem.Act → Prop
  | .monitor _ _ _ => True
  | .control a => s.waiting a.actor = ∅
  | .handle c _ => s.waiting c = ∅

instance (s : StartSystem) : (a : MonitorSystem.Act) → Decidable (s.Returned a)
  | .monitor _ _ _ => inferInstanceAs (Decidable True)
  | .control a => inferInstanceAs (Decidable (s.waiting a.actor = ∅))
  | .handle c _ => inferInstanceAs (Decidable (s.waiting c = ∅))

/-- The reply of `accept_config` is written, and `start_monitors` begins. -/
def reply (s : StartSystem) (c : ControllerId) : Option StartSystem :=
  (s.monitors.server.step (.reply c true)).map fun server =>
    ⟨{ s.monitors with server := server },
      Function.update s.waiting c (granted s.monitors.server c).toFinset⟩

def step (s : StartSystem) : Act → Option StartSystem
  | .system (.control (.reply c true)) => s.reply c
  | .system a =>
      if s.Returned a then (s.monitors.step a).map fun m => { s with monitors := m } else none
  | .start c p =>
      if p ∈ s.waiting c then
        some ⟨s.monitors.startMonitor c p, Function.update s.waiting c ((s.waiting c).erase p)⟩
      else none

/-- The steps, one constructor for each kind. -/
inductive Step (s : StartSystem) : Act → StartSystem → Prop
  | system (a : MonitorSystem.Act) (m : MonitorSystem) (hreply : ∀ c, a ≠ .control (.reply c true))
      (hreturned : s.Returned a) (hstep : s.monitors.step a = some m) :
      Step s (.system a) { s with monitors := m }
  | reply (c : ControllerId) (server : PortSystem)
      (hstep : s.monitors.server.step (.reply c true) = some server) :
      Step s (.system (.control (.reply c true)))
        ⟨{ s.monitors with server := server },
          Function.update s.waiting c (granted s.monitors.server c).toFinset⟩
  | start (c : ControllerId) (p : Port) (hp : p ∈ s.waiting c) :
      Step s (.start c p)
        ⟨s.monitors.startMonitor c p, Function.update s.waiting c ((s.waiting c).erase p)⟩

theorem step_rel {s t : StartSystem} {a : Act} (h : s.step a = some t) : Step s a t := by
  unfold step at h
  split at h
  · rename_i c
    obtain ⟨server, hserver, rfl⟩ := Option.map_eq_some_iff.mp h
    exact .reply c server hserver
  · rename_i a hreply
    obtain ⟨hreturned, h⟩ := Option.ite_none_right_eq_some.mp h
    obtain ⟨m, hm, rfl⟩ := Option.map_eq_some_iff.mp h
    exact .system a m (fun c heq => hreply c heq) hreturned hm
  · rename_i c p
    obtain ⟨hp, h⟩ := Option.ite_none_right_eq_some.mp h
    cases h
    exact .start c p hp

/-! ## The runs in which `start_monitors` is not interrupted

That the coarser system can do nothing that this one cannot is shown step by step. All its steps
but the reply are steps here, since no `start_monitors` is running; the reply is the reply,
followed by the starts of all its ports in the order in which the coarser step goes through them.
-/

/-- `start_monitors` goes through its ports, in any order, while nothing else happens. -/
theorem reaches_started {c : ControllerId} {ports : List Port} {m : MonitorSystem}
    {waiting : ControllerId → Finset Port} (hnodup : ports.Nodup)
    (hwaiting : waiting c = ports.toFinset) :
    Reaches step ⟨m, waiting⟩ ⟨ports.foldl (startMonitor c) m, Function.update waiting c ∅⟩ := by
  induction ports generalizing m waiting with
  | nil =>
      have hnone : Function.update waiting c ∅ = waiting := by
        rw [← List.toFinset_nil, ← hwaiting, Function.update_eq_self]
      rw [hnone]
      exact .refl _
  | cons p ports ih =>
      obtain ⟨hp, hrest⟩ := List.nodup_cons.mp hnodup
      have hmem : p ∈ waiting c := by simp [hwaiting]
      have hstep : step ⟨m, waiting⟩ (.start c p)
          = some ⟨m.startMonitor c p, Function.update waiting c ((waiting c).erase p)⟩ := if_pos hmem
      have hleft : (waiting c).erase p = ports.toFinset := by
        rw [hwaiting, List.toFinset_cons, Finset.erase_insert (by simpa using hp)]
      have hreach := ih (m := m.startMonitor c p) hrest
        ((Function.update_self c ((waiting c).erase p) waiting).trans hleft)
      rw [Function.update_idem] at hreach
      exact (Reaches.of_step hstep).trans hreach

/-- The ports of a reservation are all different. -/
theorem granted_nodup_step {s t : PortSystem} {a : PortSystem.Act} (h : s.step a = some t)
    (hs : ∀ c, (granted s c).Nodup) (c : ControllerId) : (granted t c).Nodup := by
  by_cases hc : a.actor = c
  · subst hc
    cases PortSystem.step_rel h with
    | fromServer d hnew => simp [granted, PortSystem.Act.actor, Controller.fromServer]
    | acceptClient d ctl written => cases written <;> simp [granted, PortSystem.Act.actor]
    | reserve d ctl ports =>
        simpa [granted, PortSystem.Act.actor] using (reserve_reserved s.usingPorts ports).nodup
    | mainLoop d ctl event => cases event.ends <;> simp [granted, PortSystem.Act.actor]
    | _ => simp [granted, PortSystem.Act.actor]
  · have hsame : granted t c = granted s c := by
      simp only [granted, step_controllers_of_ne h hc]
    exact hsame ▸ hs c

/-- The controllers take a step of their own, or none. -/
theorem monitors_server {s t : MonitorSystem} {a : MonitorSystem.Act} (h : s.step a = some t) :
    t.server = s.server ∨ ∃ b, s.server.step b = some t.server := by
  rcases MonitorSystem.step_cases h with ⟨b, rfl, hb⟩ | ⟨c, written, l, l', r, rfl, -, -, -, hnew⟩ |
    ⟨c, p, b, w, r, rfl, -, -, rfl⟩
  · exact Or.inr ⟨b, (control_eq hb).1⟩
  · rcases newChannel_cases hnew with ⟨-, hmain⟩ | ⟨l₁, l'', -, -, -, hmain⟩ | ⟨-, rfl⟩
    · exact Or.inr ⟨_, (control_eq hmain).1⟩
    · exact Or.inr ⟨_, (control_eq hmain).1⟩
    · exact Or.inl rfl
  · exact Or.inl rfl

/-- A step of `MonitorSystem`, while no `start_monitors` runs. -/
theorem reaches_of_step {m m' : MonitorSystem} {a : MonitorSystem.Act}
    (hnodup : ∀ c, (granted m.server c).Nodup) (h : m.step a = some m') :
    Reaches step ⟨m, fun _ => ∅⟩ ⟨m', fun _ => ∅⟩ := by
  by_cases hreply : ∃ c, a = .control (.reply c true)
  · obtain ⟨c, rfl⟩ := hreply
    obtain ⟨hserver, heq⟩ := control_eq h
    let waiting : ControllerId → Finset Port :=
      Function.update (fun _ => ∅) c (granted m.server c).toFinset
    have hwaiting : waiting c = (granted m.server c).toFinset := Function.update_self _ _ _
    have hclear : Function.update waiting c ∅ = fun _ => ∅ :=
      (Function.update_idem _ _ _).trans (Function.update_eq_self_iff.mpr rfl)
    have hbegin : step ⟨m, fun _ => ∅⟩ (.system (.control (.reply c true)))
        = some ⟨{ m with server := m'.server }, waiting⟩ := by
      simp only [step, reply, hserver, Option.map_some, waiting]
    have hstarted := reaches_started (m := { m with server := m'.server }) (hnodup c) hwaiting
    rw [hclear] at hstarted
    rw [heq]
    exact (Reaches.of_step hbegin).trans hstarted
  · have hone : step ⟨m, fun _ => ∅⟩ (.system a) = some ⟨m', fun _ => ∅⟩ := by
      unfold step
      split
      · rename_i c heq
        cases heq
        exact absurd ⟨c, rfl⟩ hreply
      · rename_i b hb heq
        cases heq
        have hreturned : Returned ⟨m, fun _ => ∅⟩ a := by
          cases a with
          | control b => rfl
          | handle c written => rfl
          | monitor c p b => trivial
        rw [if_pos hreturned, h, Option.map_some]
      · rename_i heq
        cases heq
    exact Reaches.of_step hone

/-- **Every run of `MonitorSystem` is one of these runs.** -/
theorem reaches_of_reaches {m : MonitorSystem} (h : Reaches MonitorSystem.step .init m) :
    Reaches step init ⟨m, fun _ => ∅⟩ := by
  have hboth : Reaches step init ⟨m, fun _ => ∅⟩ ∧ ∀ c, (granted m.server c).Nodup := by
    refine run_invariant (P := fun m : MonitorSystem => Reaches step init ⟨m, fun _ => ∅⟩ ∧
      ∀ c, (granted m.server c).Nodup) ?_ ⟨.refl _, fun _ => List.nodup_nil⟩ h
    rintro m a m' ⟨hreach, hnodup⟩ hstep
    refine ⟨hreach.trans (reaches_of_step hnodup hstep), ?_⟩
    rcases monitors_server hstep with hsame | ⟨b, hb⟩
    · rwa [hsame]
    · exact granted_nodup_step hb hnodup
  exact hboth.1

end StartSystem

end Rslinker
