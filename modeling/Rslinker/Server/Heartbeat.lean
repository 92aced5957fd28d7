import Rslinker.Basic.Transition
import Rslinker.Server.Ports

set_option autoImplicit false

/-! # The heartbeat timeout

`main_loop` waits with a timeout of ten heartbeat intervals for the next message of the client. The
timeout is created in the `select!`, so every event that the loop handles, of whatever source, ends
it and starts a new one. The loop therefore bounds the time since the last event, and the time since
the last message only as long as no other event comes in between.

Time is discrete, in milliseconds. It does not advance while a timeout is due, and handlers take
none of it.
-/

namespace Rslinker.Controller

/-- The event is a complete message of the client. -/
def LoopEvent.isMessage : LoopEvent → Bool
  | .message _ | .emptyMessage => true
  | .readError | .timeout | .newChannel _ _ | .monitorError _ | .newSocket => false

/-- `Duration::from_millis(interval * 10)`, in milliseconds. -/
def deadline (interval : UInt64) : Nat := (interval * 10).toNat

/-- The clock of a `main_loop`, and what its timeout depends on. -/
structure MainLoop where
  now : Nat
  /-- When the last complete message came, or else when the loop was entered. -/
  lastMessage : Nat
  /-- When the timeout that is running was created. -/
  armed : Nat
  looping : Bool
  deriving DecidableEq, Repr

namespace MainLoop

inductive Act
  /-- A millisecond passes. -/
  | tick
  | event (event : LoopEvent)
  deriving DecidableEq, Repr

def start (now : Nat) : MainLoop := ⟨now, now, now, true⟩

/-- The timeout that is running is due. -/
def Due (interval : UInt64) (s : MainLoop) : Prop := s.armed + deadline interval ≤ s.now

instance (interval : UInt64) (s : MainLoop) : Decidable (s.Due interval) :=
  inferInstanceAs (Decidable (_ ≤ _))

/-- An event is handled, and the next `select!` creates its timeout. -/
def handle (s : MainLoop) (event : LoopEvent) : MainLoop :=
  { s with lastMessage := if event.isMessage then s.now else s.lastMessage,
           armed := s.now, looping := !event.ends }

def step (interval : UInt64) (s : MainLoop) : Act → Option MainLoop
  | .tick => if s.looping ∧ s.Due interval then none else some { s with now := s.now + 1 }
  | .event event =>
      if s.looping ∧ (event = .timeout → s.Due interval) then some (s.handle event) else none

/-! ## What bounds the silence of a client

What is wanted is a bound on the time since the last complete message; what the code has is one on
the time since the last event of any kind. The two differ when something else happens during a
silence: a report of a monitor, or a socket that the server passes on. -/

/-- While the loop runs, the last complete message is at most ten intervals ago. -/
def Detected (interval : UInt64) (s : MainLoop) : Prop :=
  s.looping = true → s.now ≤ s.lastMessage + 10 * interval.toNat

def duration (acts : List Act) : Nat := acts.count .tick

/-- In this stretch of a schedule the loop handles something, but no complete message of the client,
and nothing that ends it. -/
structure Disturbed (acts : List Act) : Prop where
  silent : ∀ event, .event event ∈ acts → event.isMessage = false ∧ event.ends = false
  handles : ∃ event, .event event ∈ acts

/-- No silence in which the loop handles something else lasts longer than ten intervals. -/
def SilencesEnd (interval : UInt64) (acts : List Act) : Prop :=
  ∀ silence, silence <:+: acts → Disturbed silence → duration silence ≤ 10 * interval.toNat

theorem deadline_le (interval : UInt64) : deadline interval ≤ 10 * interval.toNat := by
  have hmul : (interval * 10).toNat = interval.toNat * 10 % UInt64.size := UInt64.toNat_mul interval 10
  have hmod : interval.toNat * 10 % UInt64.size ≤ interval.toNat * 10 := Nat.mod_le _ _
  unfold deadline
  omega

/-- The deadline is ten intervals, as long as these do not overflow. -/
theorem deadline_eq {interval : UInt64} (h : 10 * interval.toNat < UInt64.size) :
    deadline interval = 10 * interval.toNat := by
  have hmul : (interval * 10).toNat = interval.toNat * 10 % UInt64.size := UInt64.toNat_mul interval 10
  have hmod : interval.toNat * 10 % UInt64.size = interval.toNat * 10 := Nat.mod_eq_of_lt (by omega)
  unfold deadline
  omega

/-! ## Silences

A run is cut at its last complete message. Behind it the schedule is a silence, in which the loop
has handled other events or none. Without other events the timeout that runs was started by the
message, and so the silence is within the bound; with them only the condition bounds it. -/

section Silence

variable {interval : UInt64} {s t : MainLoop} {acts : List Act}

theorem duration_concat_tick (acts : List Act) : duration (acts ++ [.tick]) = duration acts + 1 := by
  simp [duration]

theorem duration_concat_event (acts : List Act) (event : LoopEvent) :
    duration (acts ++ [.event event]) = duration acts := by
  simp [duration]

/-- What a silence does to the loop. -/
theorem run_silence (hsilent : ∀ event, .event event ∈ acts →
      event.isMessage = false ∧ event.ends = false)
    (hrun : run (step interval) s acts = some t) :
    t.now = s.now + duration acts ∧ t.lastMessage = s.lastMessage ∧ t.looping = s.looping := by
  induction acts generalizing s with
  | nil =>
      cases hrun
      exact ⟨rfl, rfl, rfl⟩
  | cons a acts ih =>
      obtain ⟨u, hu, hrun⟩ := run_cons.mp hrun
      obtain ⟨hnow, hlast, hlooping⟩ :=
        ih (fun event h => hsilent event (List.mem_cons_of_mem a h)) hrun
      cases a with
      | tick =>
          obtain ⟨-, hu⟩ := Option.ite_none_left_eq_some.mp hu
          cases hu
          refine ⟨?_, hlast, hlooping⟩
          have hcount : duration (.tick :: acts) = duration acts + 1 := by simp [duration]
          have hstart : t.now = s.now + 1 + duration acts := hnow
          omega
      | event event =>
          obtain ⟨⟨hloop, -⟩, hu⟩ := Option.ite_none_right_eq_some.mp hu
          cases hu
          obtain ⟨hmessage, hends⟩ := hsilent event (List.mem_cons_self ..)
          have hcount : duration (.event event :: acts) = duration acts := by simp [duration]
          have hkeep : (s.handle event).lastMessage = s.lastMessage := by simp [handle, hmessage]
          have hgoes : (s.handle event).looping = s.looping := by simp [handle, hends, hloop]
          exact ⟨by rw [hcount]; exact hnow, hlast.trans hkeep, hlooping.trans hgoes⟩

/-- An event is only handled while the loop runs. -/
theorem looping_of_event {event : LoopEvent} (hevent : .event event ∈ acts)
    (hsilent : ∀ event, .event event ∈ acts → event.isMessage = false ∧ event.ends = false)
    (hrun : run (step interval) s acts = some t) : s.looping = true := by
  obtain ⟨before, behind, rfl⟩ := List.append_of_mem hevent
  obtain ⟨u, hbefore, hbehind⟩ := run_append.mp hrun
  obtain ⟨-, -, hlooping⟩ := run_silence
    (fun event h => hsilent event (List.mem_append_left _ h)) hbefore
  obtain ⟨v, hv, -⟩ := run_cons.mp hbehind
  obtain ⟨⟨hu, -⟩, -⟩ := Option.ite_none_right_eq_some.mp hv
  rw [← hlooping]
  exact hu

/-- The schedule since the last complete message, in a loop that runs. -/
structure SilentSince (interval : UInt64) (s : MainLoop) (silence : List Act) : Prop where
  silent : ∀ event, .event event ∈ silence → event.isMessage = false ∧ event.ends = false
  lasts : s.now = s.lastMessage + duration silence
  armed : s.armed = s.lastMessage ∨ ∃ event, .event event ∈ silence
  due : s.now ≤ s.armed + deadline interval

/-- **A step of the loop** continues the silence, or it is the message that ends it. -/
theorem SilentSince.step {silence : List Act} (h : SilentSince interval s silence) {a : Act}
    (hstep : s.step interval a = some t) (hlooping : t.looping = true) :
    SilentSince interval t (silence ++ [a]) ∨ SilentSince interval t [] := by
  cases a with
  | tick =>
      obtain ⟨hdue, hstep⟩ := Option.ite_none_left_eq_some.mp hstep
      cases hstep
      have hlasts := h.lasts
      have hnot : ¬ s.armed + deadline interval ≤ s.now := fun hd => hdue ⟨hlooping, hd⟩
      refine Or.inl ⟨?_, ?_, ?_, ?_⟩
      · intro event hevent
        exact h.silent event (by simpa using hevent)
      · rw [duration_concat_tick]
        show s.now + 1 = s.lastMessage + _
        omega
      · exact h.armed.imp id fun ⟨event, hevent⟩ => ⟨event, List.mem_append_left _ hevent⟩
      · show s.now + 1 ≤ s.armed + _
        omega
  | event event =>
      obtain ⟨-, hstep⟩ := Option.ite_none_right_eq_some.mp hstep
      cases hstep
      have hends : event.ends = false := by simpa [handle] using hlooping
      by_cases hmessage : event.isMessage = true
      · refine Or.inr ⟨by simp, ?_, Or.inl ?_, Nat.le_add_right _ _⟩
        · simp [handle, hmessage, duration]
        · simp [handle, hmessage]
      · have hkeep : (s.handle event).lastMessage = s.lastMessage := by simp [handle, hmessage]
        refine Or.inl ⟨?_, ?_, Or.inr ⟨event, by simp⟩, Nat.le_add_right _ _⟩
        · intro event' hevent
          rcases List.mem_append.mp hevent with hold | hnew
          · exact h.silent event' hold
          · cases List.mem_singleton.mp hnew
            exact ⟨by simpa using hmessage, hends⟩
        · rw [duration_concat_event, hkeep]
          exact h.lasts

/-- Every running loop is in a silence that began with the last message. -/
theorem silentSince_of_run {now : Nat} (hrun : run (MainLoop.step interval) (start now) acts = some s)
    (hlooping : s.looping = true) : ∃ silence, silence <:+ acts ∧ SilentSince interval s silence := by
  have hinit : (start now).looping = true →
      ∃ silence, silence <:+ [] ∧ SilentSince interval (start now) silence :=
    fun _ => ⟨[], List.nil_suffix, by simp, rfl, Or.inl rfl, Nat.le_add_right _ _⟩
  refine run_invariant_history (P := fun s done => s.looping = true →
    ∃ silence, silence <:+ done ∧ SilentSince interval s silence) ?_ hinit hrun hlooping
  intro s done a t hs hstep ht
  have hold : s.looping = true := by
    cases a with
    | tick =>
        obtain ⟨-, hstep⟩ := Option.ite_none_left_eq_some.mp hstep
        cases hstep
        exact ht
    | event event =>
        obtain ⟨⟨hloop, -⟩, -⟩ := Option.ite_none_right_eq_some.mp hstep
        exact hloop
  obtain ⟨silence, ⟨before, rfl⟩, hsilence⟩ := hs hold
  rcases hsilence.step hstep ht with hmore | hnew
  · exact ⟨silence ++ [a], ⟨before, (List.append_assoc ..).symm⟩, hmore⟩
  · exact ⟨[], List.nil_suffix, hnew⟩

end Silence

/-- **A silent client is detected** within ten intervals, at every moment of a run, exactly when no
silence in which the loop handles something else lasts longer than that. -/
theorem detected_iff (interval : UInt64) {now : Nat} {acts : List Act} {s : MainLoop}
    (hrun : run (step interval) (start now) acts = some s) :
    Throughout (step interval) (Detected interval) (start now) acts ↔ SilencesEnd interval acts := by
  rw [throughout_iff_forall]
  constructor
  · rintro h silence ⟨before, behind, rfl⟩ ⟨hsilent, event, hevent⟩
    obtain ⟨v, hv, -⟩ := run_append.mp hrun
    obtain ⟨u, hu, hsilence⟩ := run_append.mp hv
    have hdetected := h (before ++ silence) v (List.prefix_append _ _) hv
    obtain ⟨hnow, hlast, hlooping⟩ := run_silence hsilent hsilence
    have hu' : u.looping = true := looping_of_event hevent hsilent hsilence
    -- the last message came before the silence
    obtain ⟨_, -, hsince⟩ := silentSince_of_run hu hu'
    have hbefore := hsince.lasts
    have hbound := hdetected (hlooping.trans hu')
    omega
  · intro h done t hdone hrun' hlooping
    obtain ⟨silence, hsuffix, hsilence⟩ := silentSince_of_run hrun' hlooping
    have hlasts := hsilence.lasts
    rcases hsilence.armed with harmed | hhandles
    · -- the timeout dates from the last message
      have hdue := hsilence.due
      have hle : deadline interval ≤ 10 * interval.toNat := deadline_le interval
      omega
    · have hshort := h silence (hsuffix.isInfix.trans hdone.isInfix) ⟨hsilence.silent, hhandles⟩
      omega

/-- Traffic that consists of messages of the client only meets the condition. -/
theorem silencesEnd_of_messages {interval : UInt64} {acts : List Act}
    (hacts : ∀ event, .event event ∈ acts → event.isMessage = true ∨ event.ends = true) :
    SilencesEnd interval acts := by
  rintro silence hpart ⟨hsilent, event, hevent⟩
  obtain ⟨hmessage, hends⟩ := hsilent event hevent
  rcases hacts event (hpart.subset hevent) with h | h
  · rw [hmessage] at h
    cases h
  · rw [hends] at h
    cases h

/-- A socket of a new channel that the server passes on in the middle of a silence. -/
def interrupted : List Act :=
  List.replicate 9 .tick ++ [.event .newSocket] ++ List.replicate 9 .tick

/-- The loop still runs after a silence of 18 milliseconds, although it should end after 10. -/
theorem not_detected_interrupted :
    ¬ ∀ (interval : UInt64) (now : Nat) (s : MainLoop), 0 < interval.toNat →
        10 * interval.toNat < UInt64.size → Reaches (step interval) (start now) s →
        Detected interval s := by
  intro hall
  have hrun : run (step 1) (start 0) interrupted = some ⟨18, 0, 9, true⟩ := by decide
  have hdetected := hall 1 0 _ (by decide) (by decide) ⟨_, hrun⟩ rfl
  exact absurd hdetected (by decide)

/-- The rule for a client that is silent while nothing else happens: the timeout ends the loop. -/
theorem detected_silent :
    Throughout (step 1) (Detected 1) (start 0) (List.replicate 10 .tick ++ [.event .timeout]) := by
  have hrun : run (step 1) (start 0) (List.replicate 10 .tick ++ [.event .timeout])
      = some ⟨10, 0, 10, false⟩ := by decide
  refine (detected_iff 1 hrun).mpr (silencesEnd_of_messages ?_)
  intro event hevent
  have heq : event = .timeout := by simpa using hevent
  exact Or.inr (by rw [heq]; rfl)

end MainLoop

end Rslinker.Controller
