import Rslinker.Basic.Ownership
import Rslinker.Server.Controller

set_option autoImplicit false

/-! # Controllers that share `using_ports`

Every controller is a task of its own that runs `exec`: `accept_client`, `accept_config`,
`start_monitors`, `main_loop` and, whatever became of these, `cleanup`. The tasks share the set
`using_ports` and access it under its write lock. `accept_config` keeps the guard from its loop on
until it returns, so also while it writes the reply; the ports it has put into the set become its
own (`self.ports`) only after that.

The system lets the tasks take their steps in any order, and every `await` that can fail fail.
-/

namespace Rslinker

abbrev ControllerId := Nat

namespace Controller

inductive Phase
  /-- `accept_client` writes `AcceptClient`. -/
  | accepting
  /-- `accept_config` reads the configuration. -/
  | configuring
  /-- `accept_config` waits for the write lock, to reserve `ports`. -/
  | locking (ports : List Port)
  /-- `accept_config` holds the lock and writes its reply; it has reserved `success`. -/
  | replying (accepted : Accepted) (success : List Port)
  | looping
  /-- `cleanup` waits for the write lock. -/
  | cleaning
  | finished
  deriving DecidableEq, Repr

end Controller

/-- The fields of a controller that `exec` changes, and the monitors it has started. -/
structure Controller where
  phase : Controller.Phase
  heartbeatInterval : Option UInt64
  ports : Finset Port
  monitors : Multiset Controller.Monitor
  deriving DecidableEq

namespace Controller

def fromServer : Controller := ⟨.accepting, none, ∅, 0⟩

/-- What the `select!` of `main_loop` is woken by. A report of a monitor is followed by the write
of `NewChannel`, which can fail. -/
inductive LoopEvent
  /-- A message of the client; `none` when it is not JSON of the expected form. -/
  | message (msg : Option Client.JsonMessage)
  /-- The client has sent an empty message. -/
  | emptyMessage
  | readError
  | timeout
  | newChannel (port : Port) (written : Bool)
  | monitorError (port : Port)
  | newSocket
  deriving DecidableEq, Repr

/-- Whether `main_loop` returns with an error. -/
def LoopEvent.ends : LoopEvent → Bool
  | .message msg => msg.isNone
  | .emptyMessage | .readError | .timeout => true
  | .newChannel _ written => !written
  | .monitorError _ | .newSocket => false

/-- The ports a controller has reserved and not yet given up. -/
def held (c : Controller) : Finset Port :=
  match c.phase with
  | .replying _ success => c.ports ∪ success.toFinset
  | .finished => ∅
  | _ => c.ports

end Controller

/-- The shared set, the task that holds its write guard, and the controllers. -/
structure PortSystem where
  usingPorts : Finset Port
  lock : Option ControllerId
  controllers : ControllerId → Option Controller

namespace PortSystem

open Controller

inductive Act
  /-- `from_server` and `run`: a new controller task. -/
  | fromServer (c : ControllerId)
  | acceptClient (c : ControllerId) (written : Bool)
  /-- `accept_config` has read a message; `none` when the read or the decoding fails. -/
  | recvConfig (c : ControllerId) (msg : Option Client.JsonMessage)
  /-- `accept_config` gets the lock and runs its loop. -/
  | reserve (c : ControllerId)
  | reply (c : ControllerId) (written : Bool)
  | mainLoop (c : ControllerId) (event : LoopEvent)
  | cleanup (c : ControllerId)
  deriving DecidableEq, Repr

def init : PortSystem := ⟨∅, none, fun _ => none⟩

def set (s : PortSystem) (c : ControllerId) (ctl : Controller) : PortSystem :=
  { s with controllers := Function.update s.controllers c (some ctl) }

/-- The step of a controller that is in the state `ctl`. -/
def stepAt (s : PortSystem) (c : ControllerId) (ctl : Controller) : Act → Option PortSystem
  | .acceptClient _ written =>
      if ctl.phase = .accepting then
        some (s.set c { ctl with phase := if written then .configuring else .cleaning })
      else none
  | .recvConfig _ msg =>
      if ctl.phase = .configuring then
        match msg with
        | some (.pushConfig ports heartbeatInterval) =>
            some (s.set c { ctl with phase := .locking ports, heartbeatInterval := heartbeatInterval })
        | _ => some (s.set c { ctl with phase := .cleaning })
      else none
  | .reserve _ =>
      match ctl.phase with
      | .locking ports =>
          if s.lock = none then
            let r := reserve s.usingPorts ports
            some ({ s with usingPorts := r.usingPorts, lock := some c }.set c
              { ctl with phase := .replying r.accepted r.success })
          else none
      | _ => none
  | .reply _ written =>
      match ctl.phase with
      | .replying _ success =>
          if written then
            some ({ s with lock := none }.set c
              { ctl with phase := .looping, ports := success.toFinset,
                         monitors := startMonitors success.toFinset })
          else some ({ s with lock := none }.set c { ctl with phase := .cleaning })
      | _ => none
  | .mainLoop _ event =>
      if ctl.phase = .looping then
        some (s.set c { ctl with phase := if event.ends then .cleaning else .looping })
      else none
  | .cleanup _ =>
      if ctl.phase = .cleaning ∧ s.lock = none then
        some ({ s with usingPorts := release s.usingPorts ctl.ports }.set c
          { ctl with phase := .finished })
      else none
  | .fromServer _ => none

def Act.actor : Act → ControllerId
  | .fromServer c | .acceptClient c _ | .recvConfig c _ | .reserve c | .reply c _ | .mainLoop c _
  | .cleanup c => c

def step (s : PortSystem) (a : Act) : Option PortSystem :=
  match s.controllers a.actor with
  | none => if a = .fromServer a.actor then some (s.set a.actor fromServer) else none
  | some ctl => s.stepAt a.actor ctl a

/-! ## What one step does

`step_rel` turns the step function into a relation with one constructor for each way a controller
moves on, and `step_cases` forgets all but the ports: a step changes one controller, and the set
stays, grows by a reservation or shrinks by a `cleanup`. The invariants below and in the next
modules are proved from these two and never from the step function. -/

/-- The ports the controller `c` holds. -/
def heldBy (s : PortSystem) (c : ControllerId) : Finset Port :=
  match s.controllers c with
  | some ctl => ctl.held
  | none => ∅

section Set

variable (s : PortSystem) (c d : ControllerId) (ctl : Controller)

@[simp] theorem set_usingPorts : (s.set c ctl).usingPorts = s.usingPorts := rfl

@[simp] theorem set_lock : (s.set c ctl).lock = s.lock := rfl

@[simp] theorem set_controllers_self : (s.set c ctl).controllers c = some ctl := by
  simp [set]

theorem set_controllers_of_ne {c d : ControllerId} (h : d ≠ c) :
    (s.set c ctl).controllers d = s.controllers d := by
  simp [set, h]

/-- What holds of every controller still does when one is set to a value of which it holds. -/
theorem set_forall {s : PortSystem} {P : Controller → Prop} {ctl : Controller}
    (h : ∀ d ctl', s.controllers d = some ctl' → P ctl') (hctl : P ctl) (c : ControllerId)
    (used : Finset Port) (lock : Option ControllerId) (d : ControllerId) (ctl' : Controller)
    (hd : ({ s with usingPorts := used, lock := lock }.set c ctl).controllers d = some ctl') :
    P ctl' := by
  by_cases hdc : d = c
  · subst hdc
    rw [set_controllers_self] at hd
    cases hd
    exact hctl
  · rw [set_controllers_of_ne _ _ hdc] at hd
    exact h d ctl' hd

theorem heldBy_eq {s : PortSystem} {c : ControllerId} {ctl : Controller}
    (h : s.controllers c = some ctl) : s.heldBy c = ctl.held := by
  simp [heldBy, h]

@[simp] theorem heldBy_set_self : (s.set c ctl).heldBy c = ctl.held :=
  heldBy_eq (set_controllers_self s c ctl)

theorem heldBy_set_of_ne {c d : ControllerId} (h : d ≠ c) :
    (s.set c ctl).heldBy d = s.heldBy d := by
  simp [heldBy, set_controllers_of_ne s ctl h]

@[simp] theorem heldBy_with (used : Finset Port) (lock : Option ControllerId) :
    heldBy { s with usingPorts := used, lock := lock } c = s.heldBy c := rfl

end Set

/-- The steps, one constructor for each way a controller moves on. -/
inductive Step (s : PortSystem) : Act → PortSystem → Prop
  | fromServer (c : ControllerId) (hnew : s.controllers c = none) :
      Step s (.fromServer c) (s.set c fromServer)
  | acceptClient (c : ControllerId) (ctl : Controller) (written : Bool)
      (hctl : s.controllers c = some ctl) (hphase : ctl.phase = .accepting) :
      Step s (.acceptClient c written)
        (s.set c { ctl with phase := if written then .configuring else .cleaning })
  | pushConfig (c : ControllerId) (ctl : Controller) (ports : List Port) (interval : Option UInt64)
      (hctl : s.controllers c = some ctl) (hphase : ctl.phase = .configuring) :
      Step s (.recvConfig c (some (.pushConfig ports interval)))
        (s.set c { ctl with phase := .locking ports, heartbeatInterval := interval })
  | noConfig (c : ControllerId) (ctl : Controller) (msg : Option Client.JsonMessage)
      (hmsg : ∀ ports interval, msg ≠ some (.pushConfig ports interval))
      (hctl : s.controllers c = some ctl) (hphase : ctl.phase = .configuring) :
      Step s (.recvConfig c msg) (s.set c { ctl with phase := .cleaning })
  | reserve (c : ControllerId) (ctl : Controller) (ports : List Port)
      (hctl : s.controllers c = some ctl) (hphase : ctl.phase = .locking ports)
      (hlock : s.lock = none) :
      Step s (.reserve c)
        ({ s with usingPorts := (reserve s.usingPorts ports).usingPorts, lock := some c }.set c
          { ctl with phase := .replying (reserve s.usingPorts ports).accepted
                                (reserve s.usingPorts ports).success })
  | replied (c : ControllerId) (ctl : Controller) (accepted : Accepted) (success : List Port)
      (hctl : s.controllers c = some ctl) (hphase : ctl.phase = .replying accepted success) :
      Step s (.reply c true)
        ({ s with lock := none }.set c
          { ctl with phase := .looping, ports := success.toFinset,
                     monitors := startMonitors success.toFinset })
  | replyFailed (c : ControllerId) (ctl : Controller) (accepted : Accepted) (success : List Port)
      (hctl : s.controllers c = some ctl) (hphase : ctl.phase = .replying accepted success) :
      Step s (.reply c false) ({ s with lock := none }.set c { ctl with phase := .cleaning })
  | mainLoop (c : ControllerId) (ctl : Controller) (event : LoopEvent)
      (hctl : s.controllers c = some ctl) (hphase : ctl.phase = .looping) :
      Step s (.mainLoop c event)
        (s.set c { ctl with phase := if event.ends then .cleaning else .looping })
  | cleanup (c : ControllerId) (ctl : Controller) (hctl : s.controllers c = some ctl)
      (hphase : ctl.phase = .cleaning) (hlock : s.lock = none) :
      Step s (.cleanup c)
        ({ s with usingPorts := release s.usingPorts ctl.ports }.set c
          { ctl with phase := .finished })

/-- **Every step is one of these.** -/
theorem step_rel {s t : PortSystem} {a : Act} (h : s.step a = some t) : Step s a t := by
  rcases hctl : s.controllers a.actor with _ | ctl
  · simp only [step, hctl] at h
    obtain ⟨ha, h⟩ := Option.ite_none_right_eq_some.mp h
    cases h
    rw [ha]
    exact .fromServer _ hctl
  · simp only [step, hctl] at h
    cases a with
    | fromServer c => cases h
    | acceptClient c written =>
        obtain ⟨hp, h⟩ := Option.ite_none_right_eq_some.mp h
        cases h
        exact .acceptClient c ctl written hctl hp
    | recvConfig c msg =>
        obtain ⟨hp, h⟩ := Option.ite_none_right_eq_some.mp h
        split at h
        · cases h
          exact .pushConfig c ctl _ _ hctl hp
        · rename_i hmsg
          cases h
          exact .noConfig c ctl msg (fun ports interval => hmsg ports interval) hctl hp
    | reserve c =>
        cases hp : ctl.phase with
        | locking ports =>
            simp only [stepAt, hp] at h
            obtain ⟨hlock, h⟩ := Option.ite_none_right_eq_some.mp h
            cases h
            exact .reserve c ctl ports hctl hp hlock
        | _ => simp [stepAt, hp] at h
    | reply c written =>
        cases hp : ctl.phase with
        | replying accepted success =>
            simp only [stepAt, hp] at h
            cases written
            · cases h
              exact .replyFailed c ctl accepted success hctl hp
            · cases h
              exact .replied c ctl accepted success hctl hp
        | _ => simp [stepAt, hp] at h
    | mainLoop c event =>
        obtain ⟨hp, h⟩ := Option.ite_none_right_eq_some.mp h
        cases h
        exact .mainLoop c ctl event hctl hp
    | cleanup c =>
        obtain ⟨⟨hp, hlock⟩, h⟩ := Option.ite_none_right_eq_some.mp h
        cases h
        exact .cleanup c ctl hctl hp hlock

/-- **What a step does**: it changes one controller, and the set of ports in one of these ways. -/
theorem step_cases {s t : PortSystem} {a : Act} (h : s.step a = some t) :
    ∃ (ctl' : Controller) (used : Finset Port) (lock : Option ControllerId),
      t = { s with usingPorts := used, lock := lock }.set a.actor ctl' ∧
      ((used = s.usingPorts ∧ ctl'.held = s.heldBy a.actor) ∨
        (∃ ports, used = (reserve s.usingPorts ports).usingPorts ∧
          ctl'.held = s.heldBy a.actor ∪ (reserve s.usingPorts ports).success.toFinset) ∨
        (∃ ctl accepted success written, a = .reply a.actor written ∧
          s.controllers a.actor = some ctl ∧ ctl.phase = .replying accepted success ∧
          used = s.usingPorts ∧ ctl'.held = if written then success.toFinset else ctl.ports) ∨
        (used = release s.usingPorts (s.heldBy a.actor) ∧ ctl'.held = ∅)) := by
  cases step_rel h with
  | fromServer c hnew =>
      have hnone : fromServer.held = s.heldBy c := by
        simp [heldBy, hnew, held, fromServer]
      exact ⟨fromServer, s.usingPorts, s.lock, rfl, Or.inl ⟨rfl, hnone⟩⟩
  | acceptClient c ctl written hctl hp =>
      have hold : s.heldBy c = ctl.held := heldBy_eq hctl
      refine ⟨_, s.usingPorts, s.lock, rfl, Or.inl ⟨rfl, ?_⟩⟩
      cases written
      · simp [Act.actor, hold, held, hp]
      · simp [Act.actor, hold, held, hp]
  | pushConfig c ctl ports interval hctl hp | noConfig c ctl msg hmsg hctl hp =>
      have hold : s.heldBy c = ctl.held := heldBy_eq hctl
      exact ⟨_, s.usingPorts, s.lock, rfl, Or.inl ⟨rfl, by simp [Act.actor, hold, held, hp]⟩⟩
  | reserve c ctl ports hctl hp hlock =>
      have hold : s.heldBy c = ctl.held := heldBy_eq hctl
      -- the reservation is held besides `self.ports` while the reply is written
      refine ⟨_, _, some c, rfl, Or.inr (Or.inl ⟨ports, rfl, ?_⟩)⟩
      simp [Act.actor, hold, held, hp]
  | replied c ctl accepted success hctl hp =>
      refine ⟨_, s.usingPorts, none, rfl, Or.inr (Or.inr (Or.inl ?_))⟩
      exact ⟨ctl, accepted, success, true, rfl, hctl, hp, rfl, by simp [held]⟩
  | replyFailed c ctl accepted success hctl hp =>
      -- a failed write forgets the reservation
      refine ⟨_, s.usingPorts, none, rfl, Or.inr (Or.inr (Or.inl ?_))⟩
      exact ⟨ctl, accepted, success, false, rfl, hctl, hp, rfl, by simp [held]⟩
  | mainLoop c ctl event hctl hp =>
      have hold : s.heldBy c = ctl.held := heldBy_eq hctl
      refine ⟨_, s.usingPorts, s.lock, rfl, Or.inl ⟨rfl, ?_⟩⟩
      cases event.ends
      · simp [Act.actor, hold, held, hp]
      · simp [Act.actor, hold, held, hp]
  | cleanup c ctl hctl hp hlock =>
      have hold : s.heldBy c = ctl.held := heldBy_eq hctl
      refine ⟨_, _, s.lock, rfl, Or.inr (Or.inr (Or.inr ⟨?_, by simp [held]⟩))⟩
      simp [Act.actor, hold, held, hp]

theorem step_controllers_of_ne {s t : PortSystem} {a : Act} (h : s.step a = some t)
    {c : ControllerId} (hc : a.actor ≠ c) : t.controllers c = s.controllers c := by
  obtain ⟨ctl', used, lock, rfl, -⟩ := step_cases h
  exact set_controllers_of_ne _ _ (Ne.symm hc)

/-! ## How a controller comes to its end

Every error of `prepare` and `main_loop` leads to `cleanup`, since `exec` looks at their result
only for the log and for the report. A controller is finished when `cleanup` is over, and then for
good. -/

/-- `exec` has its result, and has not yet released the ports. -/
def HasResult (s : PortSystem) (c : ControllerId) : Prop :=
  (s.controllers c).any (fun ctl => ctl.phase = .cleaning)

instance (s : PortSystem) (c : ControllerId) : Decidable (HasResult s c) :=
  inferInstanceAs (Decidable (_ = true))

/-- `prepare` or `main_loop` returns in this step, always with an error. -/
def ends : Act → Bool
  | .acceptClient _ written => !written
  | .recvConfig _ (some (.pushConfig _ _)) => false
  | .recvConfig _ _ => true
  | .reply _ written => !written
  | .mainLoop _ event => event.ends
  | .fromServer _ | .reserve _ | .cleanup _ => false

/-- A controller has its result after a step that ends it, and after no other. -/
theorem hasResult_iff {s t : PortSystem} {a : Act} (h : s.step a = some t) :
    HasResult t a.actor ↔ ends a = true := by
  cases step_rel h with
  | fromServer c hnew => simp [HasResult, Act.actor, ends, Controller.fromServer]
  | acceptClient c ctl written =>
      cases written
      · simp [HasResult, Act.actor, ends]
      · simp [HasResult, Act.actor, ends]
  | pushConfig c ctl ports interval => simp [HasResult, Act.actor, ends]
  | noConfig c ctl msg hmsg =>
      have hends : ends (.recvConfig c msg) = true := by
        unfold ends
        split
        · rename_i heq
          cases heq
        · rename_i heq
          cases heq
          exact absurd rfl (hmsg _ _)
        all_goals simp_all
      simp [HasResult, Act.actor, hends]
  | reserve c ctl ports => simp [HasResult, Act.actor, ends]
  | replied c ctl accepted success => simp [HasResult, Act.actor, ends]
  | replyFailed c ctl accepted success => simp [HasResult, Act.actor, ends]
  | mainLoop c ctl event =>
      cases hends : event.ends
      · simp [HasResult, Act.actor, ends, hends]
      · simp [HasResult, Act.actor, ends, hends]
  | cleanup c ctl => simp [HasResult, Act.actor, ends]

/-- A controller exists after a step when it is new or has existed before. -/
theorem step_domain {s t : PortSystem} {a : Act} (h : s.step a = some t) (c : ControllerId) :
    (∃ ctl, t.controllers c = some ctl) ↔ a = .fromServer c ∨ ∃ ctl, s.controllers c = some ctl := by
  by_cases hc : a.actor = c
  · obtain ⟨ctl', used, lock, rfl, -⟩ := step_cases h
    subst hc
    refine ⟨fun _ => ?_, fun _ => ⟨ctl', set_controllers_self _ _ _⟩⟩
    rcases hold : s.controllers a.actor with _ | ctl
    · simp only [PortSystem.step, hold] at h
      exact Or.inl (Option.ite_none_right_eq_some.mp h).1
    · exact Or.inr ⟨ctl, rfl⟩
  · rw [step_controllers_of_ne h hc]
    refine ⟨Or.inr, ?_⟩
    rintro (rfl | hctl)
    · exact absurd rfl hc
    · exact hctl

/-- A controller is finished after its `cleanup`, and after no other step of its own. -/
theorem finished_iff {s t : PortSystem} {a : Act} (h : s.step a = some t) :
    (∃ ctl, t.controllers a.actor = some ctl ∧ ctl.phase = .finished) ↔ a = .cleanup a.actor := by
  cases step_rel h with
  | fromServer c hnew => simp [Act.actor, Controller.fromServer]
  | acceptClient c ctl written =>
      cases written
      · simp [Act.actor]
      · simp [Act.actor]
  | mainLoop c ctl event =>
      cases event.ends
      · simp [Act.actor]
      · simp [Act.actor]
  | _ => simp [Act.actor]

end PortSystem

end Rslinker
