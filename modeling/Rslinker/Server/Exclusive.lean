import Rslinker.Server.Ports

set_option autoImplicit false

/-! # A port belongs to one controller

The controllers simulate the ownership system of `Basic/Ownership.lean`: the loop of
`accept_config` acquires the ports it grants, `cleanup` releases the ports of its controller, and
no other step changes an owner. A port that is in `using_ports` though no controller holds it any
more still has its owner there, so that it cannot be granted again.

The relation between the two is `Owned`. It says more than that the ports of two controllers are
disjoint, since a controller whose write of the reply has failed owns ports that it does not hold;
without these the set of the code could not be the set of the owned ports. The frame rule of the
library then gives that a controller that cleans up takes nothing away from the others.
-/

namespace Rslinker.PortSystem

open Controller

/-- The owners `o` account for the state `s`: a port is in use exactly when it is owned, and a
controller owns what it holds. -/
structure Owned (s : PortSystem) (o : Owners Port ControllerId) : Prop where
  inUse : ∀ p, p ∈ s.usingPorts ↔ (o p).isSome
  held : ∀ c, ∀ p ∈ s.heldBy c, o p = some c

theorem owned_init : Owned init Owners.free where
  inUse := by simp [init, Owners.free]
  held := by simp [init, heldBy]

theorem Owned.eq_none {s : PortSystem} {o : Owners Port ControllerId} (h : Owned s o) {p : Port}
    (hp : p ∉ s.usingPorts) : o p = none := by
  rwa [h.inUse, Option.not_isSome_iff_eq_none] at hp

/-- Giving up claims changes no owner. -/
theorem Owned.shrink {s : PortSystem} {o : Owners Port ControllerId} (h : Owned s o)
    (c : ControllerId) (lock : Option ControllerId) {ctl : Controller}
    (hsub : ctl.held ⊆ s.heldBy c) : Owned ({ s with lock := lock }.set c ctl) o where
  inUse := h.inUse
  held d p hp := by
    by_cases hd : d = c
    · subst hd
      rw [heldBy_set_self] at hp
      exact h.held d p (hsub hp)
    · rw [heldBy_set_of_ne _ _ hd] at hp
      exact h.held d p hp

/-- The loop of `accept_config` acquires what it grants. -/
theorem Owned.reserve {s : PortSystem} {o : Owners Port ControllerId} (h : Owned s o)
    (c : ControllerId) (lock : Option ControllerId) (ports : List Port) {ctl : Controller}
    (hheld : ctl.held = s.heldBy c ∪ (reserve s.usingPorts ports).success.toFinset) :
    ∃ o', o.step (.acquire c (Controller.reserve s.usingPorts ports).success.toFinset) = some o' ∧
      Owned ({ s with usingPorts := (Controller.reserve s.usingPorts ports).usingPorts,
                      lock := lock }.set c ctl) o' := by
  set granted := (Controller.reserve s.usingPorts ports).success.toFinset with hgranted
  have hfree : ∀ p ∈ granted, o p = none := by
    intro p hp
    exact h.eq_none (mem_reserve_success.mp (List.mem_toFinset.mp hp)).2
  refine ⟨o.assign granted (some c), if_pos hfree, ?_, ?_⟩
  · -- the set grows by the granted ports, which now have an owner
    intro p
    show p ∈ (Controller.reserve s.usingPorts ports).usingPorts ↔ _
    rw [(reserve_reserved s.usingPorts ports).usingPorts, Finset.mem_union, h.inUse, ← hgranted]
    by_cases hp : p ∈ granted
    · simp [Owners.assign_of_mem hp, hp]
    · simp [Owners.assign_of_notMem hp, hp]
  · -- an old port of any controller was not free, so it keeps its owner
    intro d p hp
    by_cases hd : d = c
    · subst hd
      rw [heldBy_set_self, hheld, Finset.mem_union] at hp
      rcases hp with hp | hp
      · exact Owners.assign_some_of_free hfree (h.held d p hp)
      · exact Owners.assign_of_mem hp
    · rw [heldBy_set_of_ne _ _ hd] at hp
      exact Owners.assign_some_of_free hfree (h.held d p hp)

/-- `cleanup` releases what its controller holds. -/
theorem Owned.cleanup {s : PortSystem} {o : Owners Port ControllerId} (h : Owned s o)
    (c : ControllerId) (lock : Option ControllerId) {ctl : Controller} (hheld : ctl.held = ∅) :
    ∃ o', o.step (.release c (s.heldBy c)) = some o' ∧
      Owned ({ s with usingPorts := release s.usingPorts (s.heldBy c), lock := lock }.set c ctl)
        o' := by
  have hstep : o.step (.release c (s.heldBy c)) = some (o.assign (s.heldBy c) none) :=
    if_pos (h.held c)
  refine ⟨_, hstep, ?_, ?_⟩
  · intro p
    show p ∈ release s.usingPorts (s.heldBy c) ↔ _
    rw [mem_release, h.inUse]
    by_cases hp : p ∈ s.heldBy c
    · simp [Owners.assign_of_mem hp, hp]
    · simp [Owners.assign_of_notMem hp, hp]
  · intro d p hp
    by_cases hd : d = c
    · subst hd
      rw [heldBy_set_self, hheld] at hp
      simp at hp
    · rw [heldBy_set_of_ne _ _ hd] at hp
      exact Owners.step_frame hstep (fun hcd => hd hcd.symm) (h.held d p hp)

/-- **The controllers simulate exclusive ownership.** -/
theorem step_owned {s t : PortSystem} {o : Owners Port ControllerId} {a : Act} (h : Owned s o)
    (hstep : s.step a = some t) : ∃ o', Reaches Owners.step o o' ∧ Owned t o' := by
  obtain ⟨ctl', used, lock, rfl, heff⟩ := step_cases hstep
  rcases heff with ⟨rfl, hheld⟩ | ⟨ports, rfl, hheld⟩ |
    ⟨ctl, acc, success, written, -, hctl, hp, rfl, hheld⟩ | ⟨rfl, hheld⟩
  · exact ⟨o, .refl o, h.shrink _ lock hheld.subset⟩
  · obtain ⟨o', ho, ho'⟩ := h.reserve a.actor lock ports hheld
    exact ⟨o', .of_step ho, ho'⟩
  · -- after the reply a controller holds a part of what it held before it
    refine ⟨o, .refl o, h.shrink _ lock ?_⟩
    have hold : s.heldBy a.actor = ctl.ports ∪ success.toFinset := by
      simp [heldBy_eq hctl, held, hp]
    rw [hheld, hold]
    cases written
    · exact Finset.subset_union_left
    · exact Finset.subset_union_right
  · obtain ⟨o', ho, ho'⟩ := h.cleanup a.actor lock hheld
    exact ⟨o', .of_step ho, ho'⟩

theorem reaches_owned {s : PortSystem} (h : Reaches step init s) :
    ∃ o, Reaches Owners.step Owners.free o ∧ Owned s o :=
  run_simulates (fun _ _ _ _ hR hs => step_owned hR hs) owned_init h

theorem step_heldBy_of_ne {s t : PortSystem} {a : Act} (h : s.step a = some t) {d : ControllerId}
    (hd : d ≠ a.actor) : t.heldBy d = s.heldBy d := by
  obtain ⟨ctl', used, lock, rfl, -⟩ := step_cases h
  exact heldBy_set_of_ne _ _ hd

theorem heldBy_subset_usingPorts {s : PortSystem} (h : Reaches step init s) (c : ControllerId) :
    s.heldBy c ⊆ s.usingPorts := by
  obtain ⟨o, -, ho⟩ := reaches_owned h
  intro p hp
  rw [ho.inUse, ho.held c p hp]
  rfl

theorem heldBy_disjoint {s : PortSystem} (h : Reaches step init s) {c d : ControllerId}
    (hcd : c ≠ d) : Disjoint (s.heldBy c) (s.heldBy d) := by
  obtain ⟨o, -, ho⟩ := reaches_owned h
  rw [Finset.disjoint_left]
  intro p hc hd
  -- `p` has one owner
  have hpc : o p = some c := ho.held c p hc
  have hpd : o p = some d := ho.held d p hd
  exact hcd (Option.some.inj (hpc.symm.trans hpd))

/-- **Exclusive port ownership.** In every reachable state the ports of different controllers, from
their reservation up to `cleanup`, are disjoint and in `using_ports`, and when a controller cleans
up, the ports of all others stay theirs and in `using_ports`. -/
theorem ports_exclusive {s : PortSystem} (h : Reaches step init s) :
    (∀ c d, c ≠ d → Disjoint (s.heldBy c) (s.heldBy d)) ∧
      (∀ c, s.heldBy c ⊆ s.usingPorts) ∧
      ∀ c t, s.step (.cleanup c) = some t →
        ∀ d, d ≠ c → t.heldBy d = s.heldBy d ∧ s.heldBy d ⊆ t.usingPorts := by
  refine ⟨fun c d hcd => heldBy_disjoint h hcd, heldBy_subset_usingPorts h, ?_⟩
  intro c t hstep d hd
  have heq := step_heldBy_of_ne hstep hd
  refine ⟨heq, ?_⟩
  rw [← heq]
  exact heldBy_subset_usingPorts (h.trans (.of_step hstep)) d

def overlapping : List Act :=
  [.fromServer 0, .fromServer 1, .acceptClient 1 true, .acceptClient 0 true,
    .recvConfig 0 (some (.pushConfig [⟨80, .tcp⟩] none)),
    .recvConfig 1 (some (.pushConfig [⟨80, .tcp⟩, ⟨80, .tcp⟩, ⟨80, .udp⟩] none)),
    .reserve 0, .reply 0 true, .reserve 1]

/-- The rule in the middle of the second client's `accept_config`. -/
theorem ports_exclusive_overlapping : ∃ s : PortSystem, Reaches step init s ∧
    s.heldBy 0 = {⟨80, .tcp⟩} ∧ s.heldBy 1 = {⟨80, .udp⟩} ∧ Disjoint (s.heldBy 0) (s.heldBy 1) :=
  ⟨_, ⟨overlapping, rfl⟩, by decide, by decide,
    (ports_exclusive ⟨overlapping, rfl⟩).1 0 1 (by decide)⟩

end Rslinker.PortSystem
