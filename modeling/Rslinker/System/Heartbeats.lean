import Rslinker.Server.Heartbeat

set_option autoImplicit false

/-! # Heartbeats on both sides

`heartbeat_interval` is a period for the client and, times ten, a deadline for the server. The client
makes a ticker of it, which panics on a zero period; the server multiplies in `u64`. Both sides agree
for every interval that is neither zero nor so large that the product overflows.

Here a message of the client first reaches the server and is read by `main_loop` some time later.
Handlers take time, and a task that is ready may be scheduled late.
-/

namespace Rslinker.Heartbeat

open Controller

/-! ## The client's ticker

`tokio::time::interval` asserts that its period is not zero, and the assertion is in the task of
the client that serves the session. Any other period starts, and its first tick is ready at once.
-/

structure Interval where
  next : Nat
  period : Nat
  period_pos : 0 < period
  deriving DecidableEq, Repr

/-- `tokio::time::interval(Duration::from_millis(period))`, which panics on a zero period. -/
def interval (now : Nat) (period : UInt64) : Option Interval :=
  if h : 0 < period.toNat then some ⟨now, period.toNat, h⟩ else none

theorem interval_isSome_iff {now : Nat} {period : UInt64} :
    (interval now period).isSome = true ↔ 0 < period.toNat := by
  unfold interval
  split
  · case isTrue h => exact iff_of_true rfl h
  · case isFalse h => exact iff_of_false (by simp) h

/-! ## The server's loop and its socket

In `Server/Heartbeat.lean` a message is an event at the moment it comes. Here it first waits in the
socket of the server until `main_loop` selects it, and everything the loop does takes time. A
message that waits is read before a timeout that is due at the same time is looked at. -/

/-- `main_loop`, and the messages that have reached the server. -/
structure Line where
  loop : MainLoop
  /-- Complete messages that have not been read. -/
  unread : Nat
  /-- When the last complete message came, or else when the loop was entered. -/
  lastArrival : Nat
  /-- The event whose handler runs. -/
  handling : Option LoopEvent
  deriving DecidableEq, Repr

namespace Line

inductive Act
  /-- A millisecond passes. -/
  | tick
  /-- A complete message of the client reaches the server. -/
  | arrive
  /-- The `select!` of the loop takes the branch of the event. -/
  | select (event : LoopEvent)
  /-- The handler returns. -/
  | handled
  deriving DecidableEq, Repr

def start (now : Nat) : Line := ⟨.start now, 0, now, none⟩

/-- The branch is ready. `timeout` polls the read before its delay, so a message that is there
wins. -/
def Ready (interval : UInt64) (s : Line) (event : LoopEvent) : Prop :=
  (event.isMessage = true → 0 < s.unread) ∧
    (event = .timeout → s.loop.Due interval ∧ s.unread = 0)

instance (interval : UInt64) (s : Line) (event : LoopEvent) : Decidable (s.Ready interval event) :=
  inferInstanceAs (Decidable (_ ∧ _))

def step (interval : UInt64) (s : Line) : Act → Option Line
  | .tick => some { s with loop := { s.loop with now := s.loop.now + 1 } }
  | .arrive => some { s with unread := s.unread + 1, lastArrival := s.loop.now }
  | .select event =>
      if s.loop.looping = true ∧ s.handling = none ∧ s.Ready interval event then
        some { s with unread := if event.isMessage then s.unread - 1 else s.unread,
                      handling := some event }
      else none
  | .handled =>
      s.handling.map fun event => { s with loop := s.loop.handle event, handling := none }

variable {h : UInt64} {s t : Line} {a : Act} {acts : List Act}

theorem step_select {event : LoopEvent} :
    s.step h (.select event) = some t ↔
      (s.loop.looping = true ∧ s.handling = none ∧ s.Ready h event) ∧
        { s with unread := if event.isMessage then s.unread - 1 else s.unread,
                 handling := some event } = t := by
  simp only [step, Option.ite_none_right_eq_some, Option.some.injEq]

theorem step_handled :
    s.step h .handled = some t ↔ ∃ event, s.handling = some event ∧
      { s with loop := s.loop.handle event, handling := none } = t := by
  simp only [step, Option.map_eq_some_iff]

/-! ## The timeout

The deadline starts at the end of the last handler, which is not before the last message that has
been read. So a timeout that is due means a silence of at least the deadline, unless a message
waits. -/

/-- Between two handlers, the timeout that runs is no older than the last message, or a message is
there to be read. -/
structure Fresh (s : Line) : Prop where
  arrived : s.lastArrival ≤ s.loop.now
  armed : s.handling = none → s.unread = 0 → s.lastArrival ≤ s.loop.armed

theorem start_fresh (now : Nat) : (start now).Fresh := ⟨Nat.le_refl now, fun _ _ => Nat.le_refl now⟩

/-- **A step of the loop** keeps the timeout fresh: every handler ends with a new one. -/
theorem Fresh.step (hs : s.Fresh) (hstep : s.step h a = some t) : t.Fresh := by
  have harrived := hs.arrived
  cases a with
  | tick =>
      cases hstep
      exact ⟨Nat.le_succ_of_le harrived, hs.armed⟩
  | arrive =>
      cases hstep
      exact ⟨Nat.le_refl _, fun _ hunread => absurd hunread (Nat.succ_ne_zero _)⟩
  | select event =>
      obtain ⟨-, rfl⟩ := step_select.mp hstep
      exact ⟨harrived, fun hnone => by cases hnone⟩
  | handled =>
      obtain ⟨event, -, rfl⟩ := step_handled.mp hstep
      exact ⟨harrived, fun _ _ => harrived⟩

/-- The last complete message came less than `bound` milliseconds ago. -/
def Prompt (bound : Nat) (s : Line) : Prop := s.loop.now < s.lastArrival + bound

/-- No schedule whose complete messages come with gaps shorter than ten intervals takes the branch of
the timeout. -/
def NoTimeout (h : UInt64) : Prop :=
  ∀ (now : Nat) (acts : List Act) (s : Line), run (step h) (start now) acts = some s →
    Throughout (step h) (Prompt (10 * h.toNat)) (start now) acts → .select .timeout ∉ acts

/-- The branch of the timeout is ready only when the client has been silent for the deadline. -/
theorem Fresh.silent (hs : s.Fresh) (hstep : s.step h (.select .timeout) = some t) :
    s.lastArrival + deadline h ≤ s.loop.now := by
  obtain ⟨⟨-, hnone, hready⟩, -⟩ := step_select.mp hstep
  obtain ⟨hdue, hunread⟩ := hready.2 rfl
  have harmed : s.lastArrival ≤ s.loop.armed := hs.armed hnone hunread
  have hdue : s.loop.armed + deadline h ≤ s.loop.now := hdue
  omega

theorem noTimeout_of_deadline (hdeadline : deadline h = 10 * h.toNat) : NoTimeout h := by
  intro now acts s hrun hprompt htimeout
  -- at the step that takes the branch the line has been silent for the deadline
  obtain ⟨before, behind, rfl⟩ := List.append_of_mem htimeout
  obtain ⟨u, hu, hbehind⟩ := run_append.mp hrun
  obtain ⟨v, hv, -⟩ := run_cons.mp hbehind
  have hfresh : u.Fresh := run_invariant (fun _ _ _ => Fresh.step) (start_fresh now) ⟨before, hu⟩
  have hsilent := hfresh.silent hv
  have hgap : u.loop.now < u.lastArrival + 10 * h.toNat :=
    throughout_iff_forall.mp hprompt before u (List.prefix_append _ _) hu
  omega

/-! ## A deadline that has wrapped around

`interval * 10` is computed in `u64`, in a release build modulo 2^64. When it wraps around, the
deadline is shorter than ten intervals, and a client that sends nothing between the two loses its
session. -/

/-- The loop after `n` milliseconds in which nothing happens. -/
def idle (n : Nat) : Line := { start 0 with loop := { MainLoop.start 0 with now := n } }

theorem run_idle (n k : Nat) :
    run (step h) (idle n) (List.replicate k .tick) = some (idle (n + k)) := by
  induction k generalizing n with
  | zero => rfl
  | succ k ih =>
      have hnext : n + 1 + k = n + (k + 1) := by omega
      calc run (step h) (idle n) (List.replicate (k + 1) .tick)
          = run (step h) (idle (n + 1)) (List.replicate k .tick) := rfl
        _ = some (idle (n + (k + 1))) := by rw [ih, hnext]

theorem prompt_idle {bound n : Nat} (hbound : n < bound) : Prompt bound (idle n) := by
  show n < 0 + bound
  omega

theorem throughout_idle {bound n k : Nat} (hbound : n + k < bound) :
    Throughout (step h) (Prompt bound) (idle n) (List.replicate k .tick ++ [.select .timeout]) := by
  induction k generalizing n with
  | zero =>
      have hprompt : Prompt bound (idle n) := prompt_idle (by omega)
      refine ⟨hprompt, fun t ht => ?_⟩
      obtain ⟨-, rfl⟩ := step_select.mp ht
      exact hprompt
  | succ k ih =>
      refine ⟨prompt_idle (by omega), fun t ht => ?_⟩
      cases ht
      have hrest := ih (n := n + 1) (by omega)
      exact hrest

/-- A deadline that is shorter than ten intervals ends the session of a client that may still be
silent for a while. -/
theorem not_noTimeout_of_lt (hlt : deadline h < 10 * h.toNat) : ¬ NoTimeout h := by
  intro hall
  have hdue : (idle (deadline h)).loop.Due h := by
    show 0 + deadline h ≤ deadline h
    omega
  -- the client says nothing, and the wrapped deadline comes before ten intervals
  have hready : (idle (deadline h)).Ready h .timeout :=
    ⟨by simp [LoopEvent.isMessage], fun _ => ⟨hdue, rfl⟩⟩
  have htimeout : step h (idle (deadline h)) (.select .timeout)
      = some { idle (deadline h) with handling := some .timeout } :=
    step_select.mpr ⟨⟨rfl, rfl, hready⟩, rfl⟩
  have hticks : run (step h) (start 0) (List.replicate (deadline h) .tick)
      = some (idle (deadline h)) := by
    have hrun := run_idle (h := h) 0 (deadline h)
    rwa [Nat.zero_add] at hrun
  have hrun := run_append.mpr ⟨_, hticks, run_cons.mpr ⟨_, htimeout, run_nil _⟩⟩
  have hprompt : Throughout (step h) (Prompt (10 * h.toNat)) (idle 0)
      (List.replicate (deadline h) .tick ++ [.select .timeout]) := throughout_idle (by omega)
  exact hall 0 _ _ hrun hprompt (by simp)

/-! ## Schedules in which handlers take no time

The clock of `Server/Heartbeat.lean` is the special case in which a message is read as soon as it
comes and no handler takes time. What was shown there of a silent client is about runs of this
system. -/

/-- A loop in which messages are read when they come, and handlers take no time. -/
structure Immediate (loop : MainLoop) (s : Line) : Prop where
  loop : s.loop = loop
  read : s.unread = 0
  idle : s.handling = none

/-- What an event takes: a message has to come first. -/
def serve (event : LoopEvent) : List Act :=
  (if event.isMessage then [.arrive] else []) ++ [.select event, .handled]

theorem run_serve {loop : MainLoop} (lastArrival : Nat) {event : LoopEvent}
    (hlooping : loop.looping = true) (hdue : event = .timeout → loop.Due h) :
    ∃ t, run (step h) ⟨loop, 0, lastArrival, none⟩ (serve event) = some t ∧
      Immediate (loop.handle event) t := by
  by_cases hmessage : event.isMessage = true
  · have hready : Ready h ⟨loop, 1, loop.now, none⟩ event :=
      ⟨fun _ => Nat.one_pos, fun htimeout => by rw [htimeout] at hmessage; cases hmessage⟩
    refine ⟨⟨loop.handle event, 0, loop.now, none⟩, ?_, rfl, rfl, rfl⟩
    simp [serve, hmessage, run, step, hready, hlooping]
  · have hready : Ready h ⟨loop, 0, lastArrival, none⟩ event :=
      ⟨fun hm => absurd hm hmessage, fun htimeout => ⟨hdue htimeout, rfl⟩⟩
    refine ⟨⟨loop.handle event, 0, lastArrival, none⟩, ?_, rfl, rfl, rfl⟩
    simp [serve, hmessage, run, step, hready, hlooping]

/-- **The loop with its socket covers the clock of the loop**: every run in which handlers take no
time is one of it. -/
theorem immediate_run {now : Nat} {loop : MainLoop}
    (hrun : Reaches (MainLoop.step h) (.start now) loop) :
    ∃ s, Reaches (step h) (start now) s ∧ Immediate loop s := by
  refine run_simulates (R := Immediate) ?_ ⟨rfl, rfl, rfl⟩ hrun
  intro l l' a s hs hstep
  cases a with
  | tick =>
      obtain ⟨-, hl'⟩ := Option.ite_none_left_eq_some.mp hstep
      cases hl'
      exact ⟨_, .of_step (a := .tick) rfl, by rw [← hs.loop], hs.read, hs.idle⟩
  | event event =>
      obtain ⟨⟨hlooping, hdue⟩, hl'⟩ := Option.ite_none_right_eq_some.mp hstep
      cases hl'
      obtain ⟨_, _, lastArrival, _⟩ := s
      obtain ⟨rfl, rfl, rfl⟩ := hs
      obtain ⟨t, ht, himmediate⟩ := run_serve lastArrival hlooping hdue
      exact ⟨t, ⟨serve event, ht⟩, himmediate⟩

/-- The branch of the timeout is never taken exactly when ten intervals do not overflow. -/
theorem noTimeout_iff : NoTimeout h ↔ 10 * h.toNat < UInt64.size := by
  constructor
  · intro hall
    by_contra hge
    -- a product that overflows is smaller than what it should be
    have hwrap : deadline h < UInt64.size := (h * 10).toNat_lt_size
    exact not_noTimeout_of_lt (by omega) hall
  · intro hlt
    exact noTimeout_of_deadline (MainLoop.deadline_eq hlt)

end Line

/-! ## Agreement -/

/-- Both sides make of the interval what it says: the client's ticker starts, the server's deadline
is ten intervals, and a client that keeps to it is not dropped. -/
structure Agrees (h : UInt64) : Prop where
  starts : ∀ now, (interval now h).isSome = true
  exact : deadline h = 10 * h.toNat
  kept : Line.NoTimeout h

/-- **Both sides agree on the heartbeat** exactly when the interval is not zero and ten of them are
a `u64`. -/
theorem agrees_iff (h : UInt64) : Agrees h ↔ 0 < h.toNat ∧ 10 * h.toNat < UInt64.size := by
  constructor
  · intro hagrees
    exact ⟨interval_isSome_iff.mp (hagrees.starts 0), Line.noTimeout_iff.mp hagrees.kept⟩
  · rintro ⟨hpos, hlt⟩
    exact ⟨fun _ => interval_isSome_iff.mpr hpos, MainLoop.deadline_eq hlt,
      Line.noTimeout_iff.mpr hlt⟩

/-- The ticker of a zero interval panics. -/
theorem not_agrees_zero : ¬ ∀ h : UInt64, Agrees h := by
  intro hall
  exact absurd ((hall 0).starts 0) (by decide)

/-- An interval of 58 million years: the product wraps around to four milliseconds. -/
example : deadline 1844674407370955162 = 4 := by decide

end Rslinker.Heartbeat
