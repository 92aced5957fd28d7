import Rslinker.System.Pairing

set_option autoImplicit false

/-! # What both sides have sent

`Traced` is the world together with the messages that have been sent on every connection so far, in
each direction. It takes the steps of the world. A step of a client adds to queues towards the
server and takes from queues towards clients, and the state of the server is not touched; for every
other step it is the other way round (`ClientEffect`, `ServerEffect`).

The messages sent are a ghost state: no step depends on them, and every run of the world has a
trace (`run_of_world`). They are read off the queues before and after a step, not off the actions.
-/

namespace Rslinker

structure Traced where
  world : World
  sentUp : ConnId → List Client.JsonMessage
  sentDown : ConnId → List Server.JsonMessage

namespace Traced

def init : Traced := ⟨.init, fun _ => [], fun _ => []⟩

/-- The world has become `w`. What has been added to a queue has been sent. -/
def after (s : Traced) (w : World) : Traced where
  world := w
  sentUp q := s.sentUp q ++ added (s.world.up q) (w.up q)
  sentDown q := s.sentDown q ++ added (s.world.down q) (w.down q)

def step (resolve : String → Option CacheAddr) (s : Traced) (a : World.Act) : Option Traced :=
  (s.world.step resolve a).map s.after

section After

variable {s : Traced} {w : World} {q : ConnId}

theorem sentUp_after_of_push {more : List Client.JsonMessage} (h : w.up q = s.world.up q ++ more) :
    (s.after w).sentUp q = s.sentUp q ++ more := by
  show s.sentUp q ++ added _ _ = _
  rw [h, added_push]

theorem sentUp_after_of_suffix (h : w.up q <:+ s.world.up q) : (s.after w).sentUp q = s.sentUp q := by
  show s.sentUp q ++ added _ _ = _
  rw [added_of_suffix h, List.append_nil]

theorem sentDown_after_of_push {more : List Server.JsonMessage}
    (h : w.down q = s.world.down q ++ more) : (s.after w).sentDown q = s.sentDown q ++ more := by
  show s.sentDown q ++ added _ _ = _
  rw [h, added_push]

theorem sentDown_after_of_suffix (h : w.down q <:+ s.world.down q) :
    (s.after w).sentDown q = s.sentDown q := by
  show s.sentDown q ++ added _ _ = _
  rw [added_of_suffix h, List.append_nil]

/-- A step in two parts, of which the second one does not touch the queues. -/
theorem after_after {u : World} (hup : w.up = u.up) (hdown : w.down = u.down) :
    (s.after u).after w = s.after w := by
  have hnone : ∀ {α : Type} (l : List α), added l l = [] := fun l => List.drop_length
  simp only [after, hup, hdown, hnone, List.append_nil]

end After

/-- Every run of the world is one with its trace. -/
theorem run_of_world {resolve : String → Option CacheAddr} {acts : List World.Act} {s : Traced}
    {w : World} (h : run (World.step resolve) s.world acts = some w) :
    ∃ t, run (step resolve) s acts = some t ∧ t.world = w := by
  induction acts generalizing s with
  | nil =>
      cases h
      exact ⟨s, rfl, rfl⟩
  | cons a acts ih =>
      obtain ⟨u, hu, h⟩ := run_cons.mp h
      obtain ⟨t, ht, hw⟩ := ih (s := s.after u) h
      exact ⟨t, run_cons.mpr ⟨s.after u, by rw [step, hu]; rfl, ht⟩, hw⟩

end Traced

namespace World

/-! ## Steps of clients

A client only writes towards the server and only reads what comes from it. `ClientEffect` says so
of every step that is a client's, and is closed under composition, as a step is made of several
operations. -/

/-- What a step of a client may change. -/
structure ClientEffect (w w' : World) : Prop where
  server : w'.server = w.server
  reports : w'.reports = w.reports
  served : w'.served = w.served
  sessions : w'.reg.sessions = w.reg.sessions
  up : ∀ q, w.up q <+: w'.up q
  down : ∀ q, w'.down q <:+ w.down q

namespace ClientEffect

theorem refl (w : World) : ClientEffect w w :=
  ⟨rfl, rfl, rfl, rfl, fun _ => List.prefix_rfl, fun _ => List.suffix_rfl⟩

theorem trans {w₁ w₂ w₃ : World} (h : ClientEffect w₁ w₂) (h' : ClientEffect w₂ w₃) :
    ClientEffect w₁ w₃ where
  server := h'.server.trans h.server
  reports := h'.reports.trans h.reports
  served := h'.served.trans h.served
  sessions := h'.sessions.trans h.sessions
  up q := (h.up q).trans (h'.up q)
  down q := (h'.down q).trans (h.down q)

theorem setProc (w : World) (k : ClientId) (pr : ClientProc) : ClientEffect w (w.setProc k pr) :=
  { refl w with }

theorem sendUp (w : World) (q : ConnId) (msg : Client.JsonMessage) :
    ClientEffect w (w.sendUp q msg) :=
  { refl w with up := fun _ => prefix_update_push }

theorem dropDown (w : World) (q : ConnId) : ClientEffect w (w.dropDown q) :=
  { refl w with down := fun _ => suffix_update_pop }

theorem connect {w w' : World} {q : ConnId} {info : ConnInfo} (h : w.connect q info = some w') :
    ClientEffect w w' := by
  obtain ⟨-, h⟩ := Option.ite_none_right_eq_some.mp h
  cases h
  exact { refl w with }

end ClientEffect

theorem connect_procs {w w' : World} {q : ConnId} {info : ConnInfo}
    (h : w.connect q info = some w') : w'.procs = w.procs := by
  obtain ⟨-, h⟩ := Option.ite_none_right_eq_some.mp h
  cases h
  rfl

theorem procStep_effect {w w' : World} {k : ClientId} {pr : ClientProc} {a : ClientAct}
    (h : w.procStep k pr a = some w') : ClientEffect w w' := by
  cases procStep_does h with
  | sent => exact (ClientEffect.setProc ..).trans (.sendUp ..)
  | received => exact { ClientEffect.dropDown w pr.conn with }
  | reconnect q u _ hu => exact (ClientEffect.connect hu).trans (.setProc ..)
  | lost | readFails | giveUp => exact .setProc ..

theorem clientStep_effect {resolve : String → Option CacheAddr} {w w' : World} {k : ClientId}
    {a : ClientAct} (h : w.clientStep resolve k a = some w') : ClientEffect w w' := by
  cases clientStep_does h with
  | start _ _ _ _ _ _ u _ _ hu => exact { (ClientEffect.connect hu).trans (.refl u) with }
  | openTunnel channel q u _ _ hu =>
      exact { (ClientEffect.connect hu).trans (.sendUp u q _) with }
  | dropChannel => exact { ClientEffect.refl w with }
  | proc _ pr _ _ hw => exact procStep_effect hw

/-! ## All other steps

The same with the directions exchanged. Together the two say that a queue grows at one end by what
one side sends, and shrinks at the other by what the other side reads. -/

/-- What a step of the server, a controller, a monitor or a task may change. -/
structure ServerEffect (w w' : World) : Prop where
  procs : w'.procs = w.procs
  conns : w'.reg.conns = w.reg.conns
  up : ∀ q, w'.up q <:+ w.up q
  down : ∀ q, w.down q <+: w'.down q

namespace ServerEffect

theorem refl (w : World) : ServerEffect w w :=
  ⟨rfl, rfl, fun _ => List.suffix_rfl, fun _ => List.prefix_rfl⟩

theorem trans {w₁ w₂ w₃ : World} (h : ServerEffect w₁ w₂) (h' : ServerEffect w₂ w₃) :
    ServerEffect w₁ w₃ where
  procs := h'.procs.trans h.procs
  conns := h'.conns.trans h.conns
  up q := (h'.up q).trans (h.up q)
  down q := (h.down q).trans (h'.down q)

theorem dropUp (w : World) (q : ConnId) : ServerEffect w (w.dropUp q) :=
  { refl w with up := fun _ => suffix_update_pop }

theorem sendIf (w : World) (delivered : Bool) (q : ConnId) (msg : Server.JsonMessage) :
    ServerEffect w (w.sendIf delivered q msg) := by
  unfold World.sendIf
  split
  · exact { refl w with down := fun _ => prefix_update_push }
  · exact refl w

theorem withServer {w w' : World} {a : PortSystem.Act} (h : w.withServer a = some w') :
    ServerEffect w w' := by
  obtain ⟨server, -, rfl⟩ := Option.map_eq_some_iff.mp h
  exact { refl w with }

theorem sendTo (w : World) (c : ControllerId) (msg : NewSocket) : ServerEffect w (w.sendTo c msg) := by
  unfold World.sendTo
  split
  · split
    · exact refl w
    · exact { refl w with }
  · exact refl w

end ServerEffect

theorem serverStep_effect {w w' : World} {a : ServerAct} (h : w.serverStep a = some w') :
    ServerEffect w w' := by
  cases a with
  | onNewConnection q fresh =>
      obtain ⟨-, h⟩ := Option.ite_none_right_eq_some.mp h
      have hread : ServerEffect w ((w.dropUp q).serve q) := { ServerEffect.dropUp w q with }
      split at h
      · cases h
      · obtain ⟨-, h⟩ := Option.ite_none_right_eq_some.mp h
        obtain ⟨server, -, rfl⟩ := Option.map_eq_some_iff.mp h
        exact { hread with }
      · cases h
        exact hread.trans (.sendTo ..)
      · cases h
        exact hread
  | dropConnection q =>
      cases h
      exact { ServerEffect.refl w with }

theorem sessionStep_effect {w w' : World} {c : ControllerId} {q : ConnId} {a : ControllerAct}
    (h : w.sessionStep c q a = some w') : ServerEffect w w' := by
  cases sessionStep_does h with
  | acceptClient result u hu => exact (ServerEffect.withServer hu).trans (.sendIf ..)
  | recvConfig msg rest _ _ hw => exact (ServerEffect.dropUp w q).trans (.withServer hw)
  | recvFails _ hw => exact .withServer hw
  | reserve _ hw => exact .withServer hw
  | reply accepted success result u _ hu =>
      exact (ServerEffect.withServer hu).trans (.sendIf ..)
  | recvMsg msg rest _ _ hw => exact (ServerEffect.dropUp w q).trans (.withServer hw)
  | readFails event _ hw => exact .withServer hw
  | monitorError number result port report rest _ _ hw =>
      exact { ServerEffect.withServer hw with }
  | newChannel number result port report rest socket u _ _ _ hu =>
      have hserver : ServerEffect w u := { ServerEffect.withServer hu with }
      exact hserver.trans
        { ServerEffect.sendIf (u.addPending c number _ _) result.delivered q _ with }
  | serverMsg msg rest _ _ hw => exact { ServerEffect.withServer hw with }
  | cleanup _ hw => exact .withServer hw

theorem envStep_effect {w w' : World} {a : EnvAct} (h : w.envStep a = some w') :
    ServerEffect w w' := by
  cases a with
  | accept c p x =>
      obtain ⟨-, h⟩ := Option.ite_none_right_eq_some.mp h
      cases h
      exact { ServerEffect.refl w with }
  | monitorError c p =>
      obtain ⟨-, h⟩ := Option.ite_none_right_eq_some.mp h
      cases h
      exact { ServerEffect.refl w with }
  | pendingTimeout c number =>
      cases h
      exact { ServerEffect.refl w with }
  | claim task =>
      obtain ⟨-, h⟩ := Option.ite_none_right_eq_some.mp h
      cases h
      unfold claimPending
      split
      · split
        · exact { ServerEffect.refl w with }
        · exact { ServerEffect.refl w with }
      · exact { ServerEffect.refl w with }

end World

end Rslinker
