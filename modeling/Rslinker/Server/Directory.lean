import Rslinker.Basic.Transition
import Rslinker.Server.Ports
import Rslinker.Utils.Chat

set_option autoImplicit false

/-! # The directory of controllers

`from_server` hires every controller under its id at `controller_leader`, and `exec` reports there
that its controller has finished. The server only ever uses the leader to hire and to pass sockets
on: no task receives these reports and none fires a controller, as `main_loop` does with the reports
of its monitors. So a controller stays registered, and its report queued, for good.
-/

namespace Rslinker

inductive ServerMessage
  | newSocket (port : Port) (number : Nat)
  deriving DecidableEq, Repr

/-- What a controller reports to the server. -/
inductive ControllerReport
  | finished
  deriving DecidableEq, Repr

/-- The controllers, and the leader that the server keeps for them. -/
structure Directory where
  ports : PortSystem
  leader : Chat.Leader ServerMessage ControllerReport ControllerId ControllerId

namespace Directory

open PortSystem

def init : Directory := ⟨.init, .new⟩

/-- A step of a controller, with what it does to the leader. -/
def step (s : Directory) (a : Act) : Option Directory :=
  (s.ports.step a).map fun ports =>
    match a with
    | .fromServer c => ⟨ports, s.leader.hire c c⟩
    | a =>
        ⟨ports, if HasResult ports a.actor then s.leader.report a.actor .finished else s.leader⟩

/-- The registered ids are those of the controllers that have not finished, and no report is left. -/
structure Exact (s : Directory) : Prop where
  registered : ∀ c, c ∈ s.leader.senders ↔
    ∃ ctl, s.ports.controllers c = some ctl ∧ ctl.phase ≠ .finished
  handled : s.leader.reports = []

/-! ## What the steps do to the leader

Only the creation of a controller and its end touch the leader. The first registers an id, the
second puts a report into the queue, and nothing takes either of them away. -/

/-- All controllers are registered, and none is any more than hired. -/
structure Hired (s : Directory) : Prop where
  registered : ∀ c, c ∈ s.leader.senders ↔ ∃ ctl, s.ports.controllers c = some ctl
  employee : ∀ c ctl, s.ports.controllers c = some ctl →
    ∃ e, s.leader.employees c = some e ∧ e.id = c

def AllRun (s : PortSystem) : Prop :=
  ∀ c ctl, s.controllers c = some ctl → ctl.phase ≠ .cleaning ∧ ctl.phase ≠ .finished

/-- The cases of a step, with the leader after it. -/
theorem step_eq {s t : Directory} {a : Act} (h : s.step a = some t) :
    s.ports.step a = some t.ports ∧
      ((∃ c, a = .fromServer c ∧ t.leader = s.leader.hire c c) ∨
        ((∀ c, a ≠ .fromServer c) ∧
          t.leader = if HasResult t.ports a.actor then s.leader.report a.actor .finished
            else s.leader)) := by
  obtain ⟨ports, hports, h⟩ := Option.map_eq_some_iff.mp h
  cases a with
  | fromServer c =>
      subst h
      exact ⟨hports, Or.inl ⟨c, rfl, rfl⟩⟩
  | _ =>
      subst h
      exact ⟨hports, Or.inr ⟨by simp, rfl⟩⟩

/-- Until a step ends a controller, all of them run. -/
theorem step_allRun {s t : PortSystem} {a : Act} (h : s.step a = some t) (hs : AllRun s)
    (hends : ends a = false) : AllRun t := by
  intro c ctl hc
  by_cases hactor : a.actor = c
  · subst hactor
    constructor
    · intro hphase
      have hresult : HasResult t a.actor := by simp [HasResult, hc, hphase]
      rw [(hasResult_iff h).mp hresult] at hends
      cases hends
    · intro hphase
      have ha : a = .cleanup a.actor := (finished_iff h).mp ⟨ctl, hc, hphase⟩
      rw [ha] at h
      cases step_rel h with
      | cleanup d ctl' hctl' hphase' => exact (hs _ ctl' hctl').1 hphase'
  · rw [step_controllers_of_ne h hactor] at hc
    exact hs c ctl hc

/-- **A step registers the controllers it creates**, and removes none. -/
theorem step_hired {s t : Directory} {a : Act} (h : s.step a = some t) (hs : Hired s) : Hired t := by
  obtain ⟨hports, hleader⟩ := step_eq h
  rcases hleader with ⟨d, rfl, hleader⟩ | ⟨hnot, hleader⟩
  · constructor
    · intro c
      rw [hleader, Chat.Leader.mem_hire_senders, hs.registered, step_domain hports]
      simp [eq_comm]
    · intro c ctl hc
      rw [hleader]
      by_cases hcd : c = d
      · subst hcd
        exact ⟨_, Chat.Leader.hire_employees_self _ _ _, rfl⟩
      · rw [Chat.Leader.hire_employees_of_ne _ _ hcd]
        rw [step_controllers_of_ne hports (Ne.symm hcd)] at hc
        exact hs.employee c ctl hc
  · have hsame : t.leader.senders = s.leader.senders ∧ t.leader.employees = s.leader.employees := by
      rw [hleader]
      split
      · simp
      · simp
    constructor
    · intro c
      rw [hsame.1, hs.registered, step_domain hports]
      simp [hnot c]
    · intro c ctl hc
      rw [hsame.2]
      rcases (step_domain hports c).mp ⟨ctl, hc⟩ with ha | ⟨ctl', hc'⟩
      · exact absurd ha (hnot c)
      · exact hs.employee c ctl' hc'

/-- **A step leaves a report behind** when it ends a controller, and only then. -/
theorem step_reports {s t : Directory} {a : Act} (h : s.step a = some t) (hs : Hired s) :
    t.leader.reports = if ends a then s.leader.reports ++ [(a.actor, .finished)]
      else s.leader.reports := by
  obtain ⟨hports, hleader⟩ := step_eq h
  rcases hleader with ⟨d, rfl, hleader⟩ | ⟨hnot, hleader⟩
  · rw [hleader]
    rfl
  · simp only [hleader, hasResult_iff hports]
    by_cases hends : ends a = true
    · have hold : ∃ ctl, s.ports.controllers a.actor = some ctl := by
        obtain ⟨ctl', used, lock, hset, -⟩ := step_cases hports
        have hnew : ∃ ctl, t.ports.controllers a.actor = some ctl :=
          ⟨ctl', by rw [hset, set_controllers_self]⟩
        exact ((step_domain hports a.actor).mp hnew).resolve_left (hnot a.actor)
      obtain ⟨ctl, hctl⟩ := hold
      obtain ⟨e, he, hid⟩ := hs.employee _ ctl hctl
      simp only [hends, if_true]
      rw [Chat.Leader.report_reports he, hid]
    · simp [hends]

/-! ## The runs

The first controller that ends leaves a report for good, and its id stays registered, so exactness
is lost from then on. Before that every controller runs and is registered. -/

/-- What a run has done to the leader: one report for every controller it has ended. -/
structure Follows (acts : List Act) (s : Directory) : Prop where
  hired : Hired s
  reports : s.leader.reports = (acts.filter ends).map fun a => (a.actor, .finished)
  allRun : (∀ a ∈ acts, ends a = false) → AllRun s.ports

theorem follows_of_run {acts : List Act} {s : Directory} (hrun : run step init acts = some s) :
    Follows acts s := by
  have hinit : Follows [] init := by
    refine ⟨⟨?_, ?_⟩, rfl, ?_⟩
    · intro c
      simp [init, Chat.Leader.new, PortSystem.init]
    · intro c ctl hc
      cases hc
    · intro _ c ctl hc
      cases hc
  refine run_invariant_history (P := fun s acts => Follows acts s) ?_ hinit hrun
  intro s done a t hs hstep
  refine ⟨step_hired hstep hs.hired, ?_, ?_⟩
  · rw [step_reports hstep hs.hired, hs.reports, List.filter_append, List.map_append]
    by_cases hends : ends a = true
    · simp [hends]
    · simp [hends]
  · intro hall
    refine step_allRun (step_eq hstep).1 (hs.allRun ?_) (hall a (by simp))
    exact fun b hb => hall b (List.mem_append_left _ hb)

/-- **The directory is exact** after a run exactly when no controller has ended in it, however many
clients have come. -/
theorem exact_iff {acts : List Act} {s : Directory} (hrun : run step init acts = some s) :
    s.Exact ↔ ∀ a ∈ acts, ends a = false := by
  have hs := follows_of_run hrun
  constructor
  · intro hexact a ha
    by_contra hends
    have hmem : a ∈ acts.filter ends := List.mem_filter.mpr ⟨ha, by simpa using hends⟩
    have hempty := hexact.handled
    rw [hs.reports, List.map_eq_nil_iff] at hempty
    rw [hempty] at hmem
    cases hmem
  · intro hall
    have hnone : acts.filter ends = [] := List.filter_eq_nil_iff.mpr (by simpa using hall)
    refine ⟨?_, by rw [hs.reports, hnone]; rfl⟩
    intro c
    rw [hs.hired.registered]
    constructor
    · rintro ⟨ctl, hctl⟩
      exact ⟨ctl, hctl, (hs.allRun hall c ctl hctl).2⟩
    · rintro ⟨ctl, hctl, -⟩
      exact ⟨ctl, hctl⟩

def gone : List Act := [.fromServer 0, .acceptClient 0 false, .cleanup 0]

/-- Once its controller has finished, the directory is never exact again, whatever has its turn. -/
theorem not_exact_gone :
    ¬ ∀ s : Directory, Reaches step init s → ∃ t, Reaches step s t ∧ t.Exact := by
  intro hall
  have hrun : ∃ s : Directory, run step init gone = some s := ⟨_, rfl⟩
  obtain ⟨s, hrun⟩ := hrun
  obtain ⟨t, ⟨acts, ht⟩, hexact⟩ := hall s ⟨_, hrun⟩
  have hreports := (follows_of_run (run_append.mpr ⟨s, hrun, ht⟩)).reports
  rw [hexact.handled] at hreports
  simp [gone, ends] at hreports

def stay : List Act := [.fromServer 0, .fromServer 1, .acceptClient 1 true, .acceptClient 0 true]

/-- The rule for these. -/
theorem exact_stay : ∃ s : Directory, run step init stay = some s ∧ s.Exact := by
  have hrun : ∃ s : Directory, run step init stay = some s := ⟨_, rfl⟩
  obtain ⟨s, hrun⟩ := hrun
  exact ⟨s, hrun, (exact_iff hrun).mpr (by decide)⟩

end Directory

end Rslinker
