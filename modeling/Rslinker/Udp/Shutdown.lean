import Rslinker.Udp.Server

set_option autoImplicit false

/-! # How the receive task ends

Dropping a `UdpServer` queues the shutdown signal and closes the queue of new sessions. The receive
task may still choose the other arm of its `select!`: a datagram that arrives before the signal is
taken is handled, and when it needs a new session, the session cannot be handed over any more. The
table lookup and the first send to a new session never fail.

The other two ends of the task are orderly: the shutdown signal, and an error of the socket. The
panic is in a task of its own, so the process goes on; what is lost is the last datagram.
-/

namespace Rslinker.UdpServer

/-- The receive task is running, or has ended by the shutdown signal or by a socket error. -/
def EndsOrderly (done : List Act) (s : UdpServer) : Prop :=
  match s.receiver with
  | .running => True
  | .finished => s.owner ≠ .alive ∧ .shutdown ∈ done
  | .failed => .recvError ∈ done
  | .panicked => False

/-- While the queue is closed, a datagram comes for a session that can receive it. -/
def ArrivesKnown (s : UdpServer) (a : Act) : Prop :=
  ∀ data addr, a = .arrive data addr → s.owner = .dropped → s.CanReceive addr

/-! ## What a step does to the receive task

The task has three unwraps: the lookup of the entry it has just seen, the first send to a session
that it has just made, and the hand-over to `accept`. The lock is held all the time, so the first
two cannot fail, and the third one fails when the queue is closed. -/

section Steps

variable {s t : UdpServer} {a : Act}

/-- **The unwraps of the receive task.** Only the hand-over can fail, and it does if and only if the
queue is closed and the datagram needs a new session. -/
theorem receive_receiver (s : UdpServer) (data : Bytes) (addr : SocketAddr) :
    (s.owner = .dropped ∧ ¬ s.CanReceive addr ∧ (s.receive data addr).receiver = .panicked) ∨
      ((s.owner = .dropped → s.CanReceive addr) ∧
        (s.receive data addr).receiver = s.receiver) := by
  rcases receive_cases s data addr with ⟨i, c, hi, hc, hlive, heq⟩ | ⟨hnot, heq⟩
  · right
    rw [heq]
    exact ⟨fun _ => ⟨i, c, hi, hc, hlive⟩, rfl⟩
  · rw [heq, newClient_eq]
    by_cases howner : s.owner = .dropped
    · left
      exact ⟨howner, hnot, by simp [howner, panic]⟩
    · right
      exact ⟨fun h => absurd h howner, by simp [howner, insert]⟩

/-- The ways in which a step changes the receive task. -/
inductive ReceiverStep (s t : UdpServer) : Act → Prop
  | same {a : Act} (h : t.receiver = s.receiver) : ReceiverStep s t a
  | failed (h : t.receiver = .failed) : ReceiverStep s t .recvError
  | finished (howner : t.owner ≠ .alive) (h : t.receiver = .finished) : ReceiverStep s t .shutdown
  | panicked {data : Bytes} {addr : SocketAddr} (howner : s.owner = .dropped)
      (hnot : ¬ s.CanReceive addr) (h : t.receiver = .panicked) :
      ReceiverStep s t (.arrive data addr)

theorem receiverStep (h : s.step a = some t) : ReceiverStep s t a := by
  cases a with
  | arrive data addr =>
      obtain ⟨-, h⟩ := Option.ite_none_right_eq_some.mp h
      cases h
      rcases receive_receiver s data addr with ⟨howner, hnot, hpanic⟩ | ⟨-, hsame⟩
      · exact .panicked howner hnot hpanic
      · exact .same hsame
  | recvError =>
      obtain ⟨-, h⟩ := Option.ite_none_right_eq_some.mp h
      cases h
      exact .failed rfl
  | shutdown =>
      obtain ⟨⟨-, howner⟩, h⟩ := Option.ite_none_right_eq_some.mp h
      cases h
      exact .finished howner rfl
  | accept =>
      obtain ⟨-, h⟩ := Option.ite_none_right_eq_some.mp h
      split at h
      · cases h
        exact .same rfl
      · obtain ⟨-, h⟩ := Option.ite_none_left_eq_some.mp h
        cases h
        exact .same rfl
  | read i =>
      rcases hc : s.clients[i]? with _ | c
      · simp [step, hc] at h
      · simp only [step, hc] at h
        obtain ⟨-, h⟩ := Option.ite_none_right_eq_some.mp h
        split at h
        · cases h
          exact .same rfl
        · cases h
        · cases h
          exact .same (dropClient_receiver s i)
  | drop i =>
      obtain ⟨-, h⟩ := Option.ite_none_right_eq_some.mp h
      cases h
      exact .same (dropClient_receiver s i)
  | remove addr =>
      obtain ⟨-, h⟩ := Option.ite_none_right_eq_some.mp h
      cases h
      exact .same rfl
  | signal =>
      obtain ⟨-, h⟩ := Option.ite_none_right_eq_some.mp h
      cases h
      exact .same rfl
  | closeQueue =>
      obtain ⟨-, h⟩ := Option.ite_none_right_eq_some.mp h
      cases h
      exact .same (foldl_dropClient_receiver _ _)

/-- A step whose datagrams are for known sessions does not make the task panic. -/
theorem ne_panicked_of_step (hs : s.receiver ≠ .panicked) (hC : s.ArrivesKnown a)
    (h : s.step a = some t) : t.receiver ≠ .panicked := by
  cases receiverStep h with
  | same heq => rwa [heq]
  | failed heq | finished _ heq => simp [heq]
  | panicked howner hnot => exact absurd (hC _ _ rfl howner) hnot

theorem panicked_of_step (hC : ¬ s.ArrivesKnown a) (h : s.step a = some t) :
    t.receiver = .panicked := by
  simp only [ArrivesKnown, not_forall] at hC
  obtain ⟨data, addr, rfl, howner, hnot⟩ := hC
  obtain ⟨-, h⟩ := Option.ite_none_right_eq_some.mp h
  cases h
  rcases receive_receiver s data addr with ⟨-, -, hpanic⟩ | ⟨hknown, -⟩
  · exact hpanic
  · exact absurd (hknown howner) hnot

/-- The end of the task is in the history. -/
theorem step_endsOrderly {done : List Act} (hs : s.EndsOrderly done ∨ s.receiver = .panicked)
    (h : s.step a = some t) : t.EndsOrderly (done ++ [a]) ∨ t.receiver = .panicked := by
  cases receiverStep h with
  | same heq =>
      -- how it has ended stays in the history, and the owner does not come back
      rcases hs with hs | hs
      · left
        unfold EndsOrderly at hs ⊢
        rw [heq]
        cases hreceiver : s.receiver with
        | running => trivial
        | finished =>
            rw [hreceiver] at hs
            exact ⟨fun halive => hs.1 (alive_of_step h halive), List.mem_append_left _ hs.2⟩
        | failed =>
            rw [hreceiver] at hs
            exact List.mem_append_left _ hs
        | panicked =>
            rw [hreceiver] at hs
            exact hs
      · right
        rw [heq, hs]
  | failed heq =>
      left
      unfold EndsOrderly
      rw [heq]
      exact List.mem_append_right _ (List.mem_singleton.mpr rfl)
  | finished howner heq =>
      left
      unfold EndsOrderly
      rw [heq]
      exact ⟨howner, List.mem_append_right _ (List.mem_singleton.mpr rfl)⟩
  | panicked howner hnot heq => exact Or.inr heq

end Steps

/-! ## The runs

A task that has panicked stays so, and hence a single bad step is seen at the end of the run.
Without one, every step keeps the task running or ends it in one of the two orderly ways. -/

/-- In every run the task ends in an orderly way, or panics. -/
theorem endsOrderly_iff_of_run {acts : List Act} {s : UdpServer}
    (hrun : run step bind acts = some s) : s.EndsOrderly acts ↔ s.receiver ≠ .panicked := by
  have hends : s.EndsOrderly ([] ++ acts) ∨ s.receiver = .panicked := by
    refine run_invariant_history (P := fun s done => s.EndsOrderly done ∨ s.receiver = .panicked)
      ?_ (Or.inl trivial) hrun
    exact fun _ _ _ _ hs h => step_endsOrderly hs h
  constructor
  · intro h hpanic
    unfold EndsOrderly at h
    rw [hpanic] at h
    exact h
  · intro hne
    exact hends.resolve_right hne

/-- **Exactly when the receive task never panics.** In every state of a run it is running, or has
ended by the shutdown signal or a socket error, if and only if every datagram that it receives while
the queue of new sessions is closed is for a session that can receive it. -/
theorem endsOrderly_iff {acts : List Act} {s : UdpServer} (hrun : run step bind acts = some s) :
    (∀ done t, done <+: acts → run step bind done = some t → t.EndsOrderly done) ↔
      StepsMeet step ArrivesKnown bind acts := by
  have hpanic : Throughout step (fun s => s.receiver ≠ .panicked) bind acts ↔
      StepsMeet step ArrivesKnown bind acts := by
    refine throughout_iff_stepsMeet (I := fun s => s.receiver ≠ .panicked) (fun _ hs => hs) ?_ ?_
      (by simp [bind]) hrun
    · exact fun _ _ _ hs hC h => ne_panicked_of_step hs hC h
    · exact fun _ _ _ _ hC h => not_not.mpr (panicked_of_step hC h)
  -- in the states of a run, to end in an orderly way is not to panic
  rw [← hpanic, throughout_iff_forall]
  constructor
  · intro h done t hdone ht
    exact (endsOrderly_iff_of_run ht).mp (h done t hdone ht)
  · intro h done t hdone ht
    exact (endsOrderly_iff_of_run ht).mpr (h done t hdone ht)

/-- The port is shut down, and the last datagram arrives before the task takes the signal. -/
def lateArrival (addr : SocketAddr) : List Act := [.signal, .closeQueue, .arrive [1] addr]

/-- It makes the task panic. -/
theorem not_endsOrderly_lateArrival :
    ¬ ∀ acts s, run step bind acts = some s → s.EndsOrderly acts := by
  intro hall
  let addr : SocketAddr := ⟨.v4 0, 4000⟩
  obtain ⟨s, hrun, hpanic⟩ : ∃ s : UdpServer, run step bind (lateArrival addr) = some s ∧
      s.receiver = .panicked := ⟨_, rfl, rfl⟩
  have hends := hall _ s hrun
  unfold EndsOrderly at hends
  rw [hpanic] at hends
  exact hends

/-- A session is accepted, and then the `UdpServer` is dropped. -/
def acceptedOne (addr : SocketAddr) : List Act := [.arrive [1] addr, .accept, .signal, .closeQueue]

/-- The rule for a datagram that comes for this session before the task takes the signal. -/
theorem endsOrderly_iff_acceptedOne :
    (run step bind (acceptedOne ⟨.v4 0, 4000⟩ ++ [.arrive [2] ⟨.v4 0, 4000⟩])).isSome ∧
      ∀ done t, done <+: acceptedOne ⟨.v4 0, 4000⟩ ++ [.arrive [2] ⟨.v4 0, 4000⟩] →
        run step bind done = some t → t.EndsOrderly done := by
  refine ⟨rfl, (endsOrderly_iff rfl).mpr (stepsMeet_append.mpr ⟨?_, fun t ht => ?_⟩)⟩
  · refine ⟨by simp [ArrivesKnown, bind], fun _ _ => ⟨by simp [ArrivesKnown], fun _ _ =>
      ⟨by simp [ArrivesKnown], fun _ _ => ⟨by simp [ArrivesKnown], fun _ _ => trivial⟩⟩⟩⟩
  · rw [stepsMeet_singleton]
    intro data addr harrive _
    cases harrive
    cases ht
    exact ⟨0, _, rfl, rfl, rfl⟩

end Rslinker.UdpServer
