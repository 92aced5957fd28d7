import Rslinker.System.Pairing

set_option autoImplicit false

/-! # The table of pending sockets

`new_channel` puts an external connection into the table of its controller under a fresh number,
starts a timer for it and announces the number. The tasks of `make_tcp_channel` and
`make_udp_channel` take it out again when it has their number, port and protocol, and then tell the
timer over its oneshot channel; the timer takes it out after 300 seconds. All of them hold the write
lock of the table only for a moment, so these moments are the steps of the system below. The requests
are arbitrary; those of clients that follow the protocol are replies to an announced number.

Time is in seconds.
-/

namespace Rslinker

namespace LocalSocket

def isTcp : LocalSocket → Bool
  | .tcp _ => true
  | .udp _ => false

def isUdp : LocalSocket → Bool
  | .tcp _ => false
  | .udp _ => true

/-- `unwrap_tcp`, which panics for the other kind. -/
def unwrapTcp : LocalSocket → Option ExtId
  | .tcp x => some x
  | .udp _ => none

/-- `unwrap_udp`, which panics for the other kind. -/
def unwrapUdp : LocalSocket → Option ExtId
  | .tcp _ => none
  | .udp x => some x

end LocalSocket

/-- What a task of `make_tcp_channel` or `make_udp_channel` asks the table for, and its tunnel. -/
structure Request where
  protocol : BasicProtocol
  port : UInt16
  number : Nat
  socket : ConnId
  deriving DecidableEq, Repr

namespace Request

def makeTcpChannel (port : UInt16) (number : Nat) (socket : ConnId) : Request :=
  ⟨.tcp, port, number, socket⟩

def makeUdpChannel (port : UInt16) (number : Nat) (socket : ConnId) : Request :=
  ⟨.udp, port, number, socket⟩

/-- `server_msg`. -/
def serverMsg (msg : NewSocket) : Request :=
  match msg.port.protocol with
  | .tcp => makeTcpChannel msg.port.port msg.number msg.socket
  | .udp => makeUdpChannel msg.port.port msg.number msg.socket

def isKind (r : Request) (socket : LocalSocket) : Bool :=
  match r.protocol with
  | .tcp => socket.isTcp
  | .udp => socket.isUdp

def unwrap (r : Request) (socket : LocalSocket) : Option ExtId :=
  match r.protocol with
  | .tcp => socket.unwrapTcp
  | .udp => socket.unwrapUdp

def Matches (r : Request) (e : PendingSocket) : Prop := e.port = r.port ∧ r.isKind e.socket = true

instance (r : Request) (e : PendingSocket) : Decidable (r.Matches e) :=
  inferInstanceAs (Decidable (_ ∧ _))

variable {r : Request} {socket : LocalSocket}

theorem isKind_iff : r.isKind socket = true ↔ socket.protocol = r.protocol := by
  obtain ⟨protocol, port, number, tunnel⟩ := r
  cases protocol
  all_goals
    cases socket
    all_goals simp [isKind, LocalSocket.isTcp, LocalSocket.isUdp, LocalSocket.protocol]

/-- The guard protects the unwrapping. -/
theorem unwrap_of_isKind (h : r.isKind socket = true) : r.unwrap socket = some socket.ext := by
  obtain ⟨protocol, port, number, tunnel⟩ := r
  cases protocol
  all_goals
    cases socket
    all_goals first | rfl | cases h

@[simp] theorem serverMsg_number (msg : NewSocket) : (serverMsg msg).number = msg.number := by
  unfold serverMsg
  split
  all_goals rfl

theorem serverMsg_eq (msg : NewSocket) :
    serverMsg msg = ⟨msg.port.protocol, msg.port.port, msg.number, msg.socket⟩ := by
  unfold serverMsg
  split
  all_goals
    rename_i h
    rw [h]
    rfl

/-- A request for the port and a socket of its protocol matches. -/
theorem serverMsg_matches {msg : NewSocket} {e : PendingSocket} (hport : e.port = msg.port.port)
    (hprotocol : e.socket.protocol = msg.port.protocol) : (serverMsg msg).Matches e := by
  rw [serverMsg_eq]
  exact ⟨hport, isKind_iff.mpr hprotocol⟩

end Request

/-! ## The tasks around the table

An entry has a timer, a task of its own that waits for 300 seconds or for a message of whoever
takes the entry. A request is a task as well, from its start until it gets the lock. All of them
may be scheduled late, so a timer can be due and its entry still be there, and a request may find
the entry gone that was there when it came. -/

/-- The task that `add_pending_socket` spawns. -/
inductive Timer
  | sleeping (deadline : Nat)
  /-- The sleep is over, and the task waits for the lock. -/
  | removing
  deriving DecidableEq, Repr

/-- The table of a controller with the tasks that use it. -/
structure PendingSockets where
  now : Nat
  table : Nat → Option PendingSocket
  timers : Nat → Option Timer
  /-- The sender in the entry of the number has been used. -/
  told : Nat → Bool
  /-- `new_channel` is between `add_pending_socket` and `notify_client`. -/
  adding : Option (Port × Nat)
  announced : List (Port × Nat)
  /-- Tasks that wait for the lock. -/
  requests : List Request
  /-- Tasks that have taken a socket and not yet told its timer. -/
  taken : List (Request × ExtId)
  /-- Tasks that copy. -/
  relays : List (Request × ExtId)
  panicked : Bool
  /-- What each number was drawn for, and when. -/
  drawn : Nat → Option (PendingSocket × Nat)

namespace PendingSockets

inductive Act
  | tick
  /-- `new_channel` draws the number for what the monitor of the port has reported, a socket of the
  protocol of its port. -/
  | add (port : Port) (socket : LocalSocket) (number : Nat)
  | notify (result : Write)
  /-- Any request. -/
  | make (r : Request)
  /-- The `AcceptChannel` of a client that answers an announced number. -/
  | reply (msg : NewSocket)
  /-- The task gets the lock. -/
  | claim (r : Request)
  /-- The task sends to the timer of its socket. -/
  | tell (r : Request) (x : ExtId)
  /-- The `select!` of the timer takes the branch of `sleep`. -/
  | elapse (number : Nat)
  /-- The `select!` of the timer takes the branch of `recver`. -/
  | stop (number : Nat)
  /-- The timer gets the lock. -/
  | remove (number : Nat)
  deriving DecidableEq, Repr

def init : PendingSockets where
  now := 0
  table _ := none
  timers _ := none
  told _ := false
  adding := none
  announced := []
  requests := []
  taken := []
  relays := []
  panicked := false
  drawn _ := none

def addPendingSocket (s : PendingSockets) (number : Nat) (socket : PendingSocket)
    (timeout : Option Nat) : PendingSockets :=
  { s with
    table := record s.table number socket
    timers := Function.update s.timers number (timeout.map fun d => .sleeping (s.now + d))
    told := Function.update s.told number false
    drawn := record s.drawn number (socket, s.now) }

def removeEntry (s : PendingSockets) (number : Nat) : PendingSockets :=
  { s with table := Function.update s.table number none }

/-- The body of the task, up to `drop(write_lock)`. -/
def takeSocket (s : PendingSockets) (r : Request) : PendingSockets :=
  match s.table r.number with
  | some e =>
      if r.Matches e then
        -- `remove(&number).unwrap()`
        match s.table r.number with
        | none => { s with panicked := true }
        | some e =>
            let s := s.removeEntry r.number
            match r.unwrap e.socket with
            | none => { s with panicked := true }
            | some x => { s with taken := s.taken ++ [(r, x)] }
      else s
  | none => s

def step (s : PendingSockets) : Act → Option PendingSockets
  | .tick => some { s with now := s.now + 1 }
  | .add port socket number =>
      if s.adding = none ∧ s.drawn number = none ∧ socket.protocol = port.protocol then
        some { s.addPendingSocket number ⟨socket, port.port⟩ (some 300) with
          adding := some (port, number) }
      else none
  | .notify result =>
      s.adding.map fun x =>
        { s with
          adding := none,
          announced := if result.delivered then s.announced ++ [x] else s.announced }
  | .make r => some { s with requests := s.requests ++ [r] }
  | .reply msg =>
      if (msg.port, msg.number) ∈ s.announced then
        some { s with requests := s.requests ++ [.serverMsg msg] }
      else none
  | .claim r =>
      if r ∈ s.requests then some ({ s with requests := s.requests.erase r }.takeSocket r) else none
  | .tell r x =>
      if (r, x) ∈ s.taken then
        some { s with taken := s.taken.erase (r, x), relays := s.relays ++ [(r, x)],
                      told := Function.update s.told r.number true }
      else none
  | .elapse number =>
      match s.timers number with
      | some (.sleeping deadline) =>
          if deadline ≤ s.now then
            some { s with timers := Function.update s.timers number (some .removing) }
          else none
      | _ => none
  | .stop number =>
      match s.timers number with
      | some (.sleeping _) =>
          if s.told number = true then
            some { s with timers := Function.update s.timers number none }
          else none
      | _ => none
  | .remove number =>
      if s.timers number = some .removing then
        some { s.removeEntry number with timers := Function.update s.timers number none }
      else none

/-! ## What a step does to the table

An entry goes in under a new number and comes out once, for one of two reasons (`Takes`). A task
that takes an entry checks its port and its kind first, under the same lock, so the unwraps that
follow cannot fail. -/

section Step

variable {s t : PendingSockets} {a : Act} {r : Request} {n : Nat}

/-- The body of the task: a matching entry is taken, and nothing else happens. -/
theorem takeSocket_cases (s : PendingSockets) (r : Request) :
    (∃ e, s.table r.number = some e ∧ r.Matches e ∧
      s.takeSocket r = { s.removeEntry r.number with taken := s.taken ++ [(r, e.socket.ext)] }) ∨
    ((∀ e, s.table r.number = some e → ¬ r.Matches e) ∧ s.takeSocket r = s) := by
  unfold takeSocket
  cases he : s.table r.number with
  | none => exact Or.inr ⟨by simp, rfl⟩
  | some e =>
      by_cases hmatches : r.Matches e
      · have hunwrap : r.unwrap e.socket = some e.socket.ext := Request.unwrap_of_isKind hmatches.2
        exact Or.inl ⟨e, rfl, hmatches, by simp [hmatches, hunwrap, removeEntry]⟩
      · refine Or.inr ⟨?_, by simp [hmatches]⟩
        intro e' he'
        cases he'
        exact hmatches

/-- What a task does when it gets the lock. -/
theorem step_claim (hstep : s.step (.claim r) = some t) :
    (∃ e, s.table r.number = some e ∧ r.Matches e ∧ r ∈ s.requests ∧
      t = { { s with requests := s.requests.erase r }.removeEntry r.number with
        taken := s.taken ++ [(r, e.socket.ext)] }) ∨
    ((∀ e, s.table r.number = some e → ¬ r.Matches e) ∧
      t = { s with requests := s.requests.erase r }) := by
  obtain ⟨hr, hstep⟩ := Option.ite_none_right_eq_some.mp hstep
  cases hstep
  rcases takeSocket_cases { s with requests := s.requests.erase r } r with
    ⟨e, he, hmatches, heq⟩ | ⟨hno, heq⟩
  · exact Or.inl ⟨e, he, hmatches, hr, heq⟩
  · exact Or.inr ⟨hno, heq⟩

theorem step_elapse (hstep : s.step (.elapse n) = some t) :
    ∃ deadline, s.timers n = some (.sleeping deadline) ∧ deadline ≤ s.now ∧
      t = { s with timers := Function.update s.timers n (some .removing) } := by
  simp only [step] at hstep
  split at hstep
  · case h_1 deadline htimer =>
      obtain ⟨hdue, hstep⟩ := Option.ite_none_right_eq_some.mp hstep
      exact ⟨deadline, htimer, hdue, (Option.some.inj hstep).symm⟩
  · cases hstep

theorem step_stop (hstep : s.step (.stop n) = some t) :
    s.told n = true ∧ t = { s with timers := Function.update s.timers n none } := by
  simp only [step] at hstep
  split at hstep
  · obtain ⟨htold, hstep⟩ := Option.ite_none_right_eq_some.mp hstep
    exact ⟨htold, (Option.some.inj hstep).symm⟩
  · cases hstep

/-- The step takes the entry `e` with the number `n` out of the table: for a request that matches
it, or by its timer. -/
inductive Takes (s : PendingSockets) (n : Nat) (e : PendingSocket) : Act → PendingSockets → Prop
  | claim (r : Request) (t : PendingSockets) (hr : r ∈ s.requests) (hnumber : r.number = n)
      (hmatches : r.Matches e)
      (ht : t = { { s with requests := s.requests.erase r }.removeEntry n with
        taken := s.taken ++ [(r, e.socket.ext)] }) : Takes s n e (.claim r) t
  | remove (t : PendingSockets) (htimer : s.timers n = some .removing)
      (ht : t = { s.removeEntry n with timers := Function.update s.timers n none }) :
      Takes s n e (.remove n) t

theorem Takes.table {e : PendingSocket} (h : Takes s n e a t) :
    t.table = Function.update s.table n none := by
  cases h with
  | claim r _ _ _ _ ht =>
      rw [ht]
      rfl
  | remove _ _ ht =>
      rw [ht]
      rfl

theorem Takes.drawn {e : PendingSocket} (h : Takes s n e a t) : t.drawn = s.drawn := by
  cases h with
  | claim r _ _ _ _ ht =>
      rw [ht]
      rfl
  | remove _ _ ht =>
      rw [ht]
      rfl

/-- **What a step can do to the table**: it takes out one entry, puts one in under a new number, or
leaves the table as it is. -/
theorem step_table (hstep : s.step a = some t) :
    (∃ n e, s.table n = some e ∧ Takes s n e a t) ∨
    (∃ port socket n, a = .add port socket n ∧ s.drawn n = none ∧ socket.protocol = port.protocol ∧
      t.table = record s.table n ⟨socket, port.port⟩ ∧
      t.drawn = record s.drawn n (⟨socket, port.port⟩, s.now)) ∨
    (t.table = s.table ∧ t.drawn = s.drawn) := by
  cases a with
  | tick =>
      cases hstep
      exact Or.inr (Or.inr ⟨rfl, rfl⟩)
  | add port socket number =>
      obtain ⟨⟨-, hfresh, hprotocol⟩, hstep⟩ := Option.ite_none_right_eq_some.mp hstep
      cases hstep
      exact Or.inr (Or.inl ⟨port, socket, number, rfl, hfresh, hprotocol, rfl, rfl⟩)
  | notify result =>
      obtain ⟨x, -, rfl⟩ := Option.map_eq_some_iff.mp hstep
      exact Or.inr (Or.inr ⟨rfl, rfl⟩)
  | make r =>
      cases hstep
      exact Or.inr (Or.inr ⟨rfl, rfl⟩)
  | reply msg =>
      obtain ⟨-, hstep⟩ := Option.ite_none_right_eq_some.mp hstep
      cases hstep
      exact Or.inr (Or.inr ⟨rfl, rfl⟩)
  | claim r =>
      rcases step_claim hstep with ⟨e, he, hmatches, hr, ht⟩ | ⟨-, rfl⟩
      · exact Or.inl ⟨r.number, e, he, .claim r _ hr rfl hmatches ht⟩
      · exact Or.inr (Or.inr ⟨rfl, rfl⟩)
  | tell r x =>
      obtain ⟨-, hstep⟩ := Option.ite_none_right_eq_some.mp hstep
      cases hstep
      exact Or.inr (Or.inr ⟨rfl, rfl⟩)
  | elapse number =>
      obtain ⟨deadline, -, -, rfl⟩ := step_elapse hstep
      exact Or.inr (Or.inr ⟨rfl, rfl⟩)
  | stop number =>
      obtain ⟨-, rfl⟩ := step_stop hstep
      exact Or.inr (Or.inr ⟨rfl, rfl⟩)
  | remove number =>
      obtain ⟨htimer, hstep⟩ := Option.ite_none_right_eq_some.mp hstep
      cases hstep
      cases he : s.table number with
      | none =>
          exact Or.inr (Or.inr ⟨Function.update_eq_self_iff.mpr he.symm, rfl⟩)
      | some e => exact Or.inl ⟨number, e, he, .remove _ htimer rfl⟩

/-! ## The invariant

Numbers are fresh when they are drawn. So a number stands for one socket for good, whether the
entry is still there or not, and what a task has got under a number is the socket that the number
was drawn for. -/

def handed (s : PendingSockets) : List (Request × ExtId) := s.taken ++ s.relays

/-- The number was drawn for the entry, at the time `d`. -/
def DrawnFor (s : PendingSockets) (n : Nat) (e : PendingSocket) (d : Nat) : Prop :=
  s.drawn n = some (e, d)

structure Sound (s : PendingSockets) : Prop where
  table : ∀ n e, s.table n = some e → ∃ d, s.DrawnFor n e d
  handed : ∀ r x, (r, x) ∈ s.handed →
    s.table r.number = none ∧ ∃ e d, s.DrawnFor r.number e d ∧ r.Matches e ∧ x = e.socket.ext
  once : (s.handed.map fun h => h.1.number).Nodup
  announced : ∀ p n, (p, n) ∈ s.announced ∨ s.adding = some (p, n) →
    ∃ e d, s.DrawnFor n e d ∧ e.port = p.port ∧ e.socket.protocol = p.protocol
  sleeping : ∀ n deadline, s.timers n = some (.sleeping deadline) →
    ∃ e d, s.DrawnFor n e d ∧ deadline = d + 300
  removing : ∀ n, s.timers n = some .removing → ∃ e d, s.DrawnFor n e d ∧ d + 300 ≤ s.now
  calm : s.panicked = false

theorem init_sound : init.Sound where
  table := by simp [init]
  handed := by simp [init, PendingSockets.handed]
  once := by simp [init, PendingSockets.handed]
  announced := by simp [init]
  sleeping := by simp [init]
  removing := by simp [init]
  calm := rfl

namespace Sound

/-- A number that nothing was drawn for is in no entry and with no task. -/
theorem fresh (h : s.Sound) (hn : s.drawn n = none) :
    s.table n = none ∧ ∀ r x, (r, x) ∈ s.handed → r.number ≠ n := by
  constructor
  · cases he : s.table n with
    | none => rfl
    | some e =>
        obtain ⟨d, hd⟩ := h.table n e he
        rw [DrawnFor, hn] at hd
        cases hd
  · rintro r x hr rfl
    obtain ⟨-, e, d, hd, -⟩ := h.handed r x hr
    rw [DrawnFor, hn] at hd
    cases hd

theorem addPendingSocket (h : s.Sound) {p : Port} {socket : LocalSocket} (hn : s.drawn n = none)
    (hprotocol : socket.protocol = p.protocol) :
    { s.addPendingSocket n ⟨socket, p.port⟩ (some 300) with
      adding := some (p, n) : PendingSockets }.Sound := by
  have hgrow : ∀ n' e d, s.DrawnFor n' e d →
      record s.drawn n (⟨socket, p.port⟩, s.now) n' = some (e, d) :=
    fun n' e d => extends_record hn _ n' (e, d)
  obtain ⟨-, hhanded⟩ := h.fresh hn
  constructor
  · intro n' e he
    rcases record_eq_some he with ⟨rfl, rfl⟩ | hold
    · exact ⟨s.now, record_self _ _ _⟩
    · obtain ⟨d, hd⟩ := h.table n' e hold
      exact ⟨d, hgrow n' e d hd⟩
  · intro r x hr
    obtain ⟨htable, e, d, hd, hrest⟩ := h.handed r x hr
    have hother : record s.table n ⟨socket, p.port⟩ r.number = s.table r.number :=
      Function.update_of_ne (hhanded r x hr) ..
    exact ⟨hother.trans htable, e, d, hgrow _ e d hd, hrest⟩
  · exact h.once
  · intro p' n' hannounced
    rcases hannounced with hold | hnew
    · obtain ⟨e, d, hd, hrest⟩ := h.announced p' n' (Or.inl hold)
      exact ⟨e, d, hgrow n' e d hd, hrest⟩
    · cases hnew
      exact ⟨_, s.now, record_self _ _ _, rfl, hprotocol⟩
  · intro n' deadline htimer
    by_cases hn' : n' = n
    · subst hn'
      have hnew : some (Timer.sleeping (s.now + 300)) = some (.sleeping deadline) := by
        simpa [PendingSockets.addPendingSocket] using htimer
      cases hnew
      exact ⟨_, s.now, record_self _ _ _, rfl⟩
    · obtain ⟨e, d, hd, hdeadline⟩ := h.sleeping n' deadline
        (by simpa [PendingSockets.addPendingSocket, hn'] using htimer)
      exact ⟨e, d, hgrow n' e d hd, hdeadline⟩
  · intro n' htimer
    by_cases hn' : n' = n
    · subst hn'
      simp [PendingSockets.addPendingSocket] at htimer
    · obtain ⟨e, d, hd, hdue⟩ := h.removing n'
        (by simpa [PendingSockets.addPendingSocket, hn'] using htimer)
      exact ⟨e, d, hgrow n' e d hd, hdue⟩
  · exact h.calm

/-- Entries may go. -/
theorem removeEntry (h : s.Sound) (n : Nat) : (s.removeEntry n).Sound := by
  refine { h with table := ?_, handed := ?_ }
  · intro n' e he
    by_cases hn : n' = n
    · subst hn
      simp [PendingSockets.removeEntry] at he
    · exact h.table n' e (by simpa [PendingSockets.removeEntry, hn] using he)
  · intro r x hr
    obtain ⟨htable, hrest⟩ := h.handed r x hr
    refine ⟨?_, hrest⟩
    by_cases hn : r.number = n
    · rw [hn]
      exact Function.update_self ..
    · exact (Function.update_of_ne hn ..).trans htable

/-- **A matching request gets the socket**, and no other task has it. -/
theorem take (h : s.Sound) {e : PendingSocket} (he : s.table r.number = some e)
    (hmatches : r.Matches e) :
    { s.removeEntry r.number with
      taken := s.taken ++ [(r, e.socket.ext)] : PendingSockets }.Sound := by
  have hgone : (s.removeEntry r.number).table r.number = none := Function.update_self ..
  obtain ⟨d, hd⟩ := h.table r.number e he
  have hperm : (s.taken ++ [(r, e.socket.ext)] ++ s.relays).Perm ((r, e.socket.ext) :: s.handed) := by
    rw [List.append_assoc]
    exact List.perm_middle
  refine { h.removeEntry r.number with handed := ?_, once := ?_ }
  · intro r' x hr
    rcases List.mem_cons.mp (hperm.mem_iff.mp hr) with hnew | hold
    · cases hnew
      exact ⟨hgone, e, d, hd, hmatches, rfl⟩
    · exact (h.removeEntry r.number).handed r' x hold
  · -- a number that has been handed out is no longer in the table
    have hnew : r.number ∉ s.handed.map fun h => h.1.number := by
      rintro hmem
      obtain ⟨⟨r', x⟩, hr, hnumber⟩ := List.mem_map.mp hmem
      obtain ⟨htable, -⟩ := h.handed r' x hr
      have hnumber : r'.number = r.number := hnumber
      rw [hnumber, he] at htable
      cases htable
    exact (hperm.map _).nodup_iff.mpr (List.nodup_cons.mpr ⟨hnew, h.once⟩)

theorem tell (h : s.Sound) {x : ExtId} (hr : (r, x) ∈ s.taken) :
    { s with taken := s.taken.erase (r, x), relays := s.relays ++ [(r, x)],
             told := Function.update s.told r.number true : PendingSockets }.Sound := by
  have hperm : (s.taken.erase (r, x) ++ (s.relays ++ [(r, x)])).Perm s.handed := by
    have hback : (s.taken.erase (r, x) ++ (s.relays ++ [(r, x)])).Perm
        (s.taken.erase (r, x) ++ ((r, x) :: s.relays)) :=
      (List.perm_append_singleton _ _).append_left _
    have hfront : (s.taken.erase (r, x) ++ ((r, x) :: s.relays)).Perm
        ((r, x) :: (s.taken.erase (r, x) ++ s.relays)) := List.perm_middle
    have hcons : ((r, x) :: (s.taken.erase (r, x) ++ s.relays)).Perm s.handed :=
      (List.perm_cons_erase hr).symm.append_right s.relays
    exact (hback.trans hfront).trans hcons
  exact { h with
    handed := fun r' x' hr' => h.handed r' x' (hperm.mem_iff.mp hr')
    once := (hperm.map _).nodup_iff.mpr h.once }

/-- A timer may end, or go over to the next phase when its deadline has come. -/
theorem setTimer (h : s.Sound) {timer : Option Timer}
    (htimer : timer = none ∨ timer = some .removing ∧ ∃ e d, s.DrawnFor n e d ∧ d + 300 ≤ s.now) :
    { s with timers := Function.update s.timers n timer : PendingSockets }.Sound := by
  refine { h with sleeping := ?_, removing := ?_ }
  · intro n' deadline hn'
    by_cases hn : n' = n
    · subst hn
      have hself : timer = some (.sleeping deadline) := by simpa using hn'
      rcases htimer with rfl | ⟨rfl, -⟩
      · cases hself
      · cases hself
    · exact h.sleeping n' deadline (by simpa [hn] using hn')
  · intro n' hn'
    by_cases hn : n' = n
    · subst hn
      have hself : timer = some .removing := by simpa using hn'
      rcases htimer with rfl | ⟨-, hdue⟩
      · cases hself
      · exact hdue
    · exact h.removing n' (by simpa [hn] using hn')

/-- **A step keeps the table sound.** -/
theorem step (h : s.Sound) (hstep : s.step a = some t) : t.Sound := by
  cases a with
  | tick =>
      cases hstep
      refine { h with removing := ?_ }
      intro n hn
      obtain ⟨e, d, hd, hdue⟩ := h.removing n hn
      exact ⟨e, d, hd, Nat.le_succ_of_le hdue⟩
  | add port socket number =>
      obtain ⟨⟨-, hfresh, hprotocol⟩, hstep⟩ := Option.ite_none_right_eq_some.mp hstep
      cases hstep
      exact h.addPendingSocket hfresh hprotocol
  | notify result =>
      obtain ⟨⟨port, number⟩, hadding, rfl⟩ := Option.map_eq_some_iff.mp hstep
      refine { h with announced := ?_ }
      intro p n hn
      rcases hn with hn | hn
      · -- the announcement that is written was in progress before
        simp only at hn
        split at hn
        · rcases List.mem_append.mp hn with hold | hnew
          · exact h.announced p n (Or.inl hold)
          · cases List.mem_singleton.mp hnew
            exact h.announced _ _ (Or.inr hadding)
        · exact h.announced p n (Or.inl hn)
      · cases hn
  | make r =>
      cases hstep
      exact { h with }
  | reply msg =>
      obtain ⟨-, hstep⟩ := Option.ite_none_right_eq_some.mp hstep
      cases hstep
      exact { h with }
  | claim r =>
      have herase : { s with requests := s.requests.erase r : PendingSockets }.Sound := { h with }
      rcases step_claim hstep with ⟨e, he, hmatches, -, rfl⟩ | ⟨-, rfl⟩
      · exact herase.take he hmatches
      · exact herase
  | tell r x =>
      obtain ⟨hr, hstep⟩ := Option.ite_none_right_eq_some.mp hstep
      cases hstep
      exact h.tell hr
  | elapse number =>
      obtain ⟨deadline, htimer, hdue, rfl⟩ := step_elapse hstep
      obtain ⟨e, d, hd, hdeadline⟩ := h.sleeping number deadline htimer
      exact h.setTimer (Or.inr ⟨rfl, e, d, hd, by omega⟩)
  | stop number =>
      obtain ⟨-, rfl⟩ := step_stop hstep
      exact h.setTimer (Or.inl rfl)
  | remove number =>
      obtain ⟨-, hstep⟩ := Option.ite_none_right_eq_some.mp hstep
      cases hstep
      exact (h.removeEntry number).setTimer (Or.inl rfl)

end Sound

theorem reaches_sound (h : Reaches step init s) : s.Sound :=
  run_invariant (fun _ _ _ => Sound.step) init_sound h

/-! ## What only grows

The numbers drawn and the sockets handed out are records of what has happened. A fact about such a
record, once true, stays true, and can be used at any later point of the run. -/

structure Grows (s t : PendingSockets) : Prop where
  now : s.now ≤ t.now
  drawn : Extends s.drawn t.drawn
  handed : ∀ h ∈ s.handed, h ∈ t.handed

theorem Grows.refl (s : PendingSockets) : Grows s s := ⟨Nat.le_refl _, .refl _, fun _ h => h⟩

theorem Grows.trans {u : PendingSockets} (h₁ : Grows s t) (h₂ : Grows t u) : Grows s u :=
  ⟨h₁.now.trans h₂.now, fun n v hv => h₂.drawn n v (h₁.drawn n v hv),
    fun x hx => h₂.handed x (h₁.handed x hx)⟩

theorem step_grows (hstep : s.step a = some t) : Grows s t := by
  cases a with
  | tick =>
      cases hstep
      exact ⟨Nat.le_succ _, .refl _, fun _ h => h⟩
  | add port socket number =>
      obtain ⟨⟨-, hfresh, -⟩, hstep⟩ := Option.ite_none_right_eq_some.mp hstep
      cases hstep
      exact ⟨Nat.le_refl _, extends_record hfresh _, fun _ h => h⟩
  | notify result =>
      obtain ⟨x, -, rfl⟩ := Option.map_eq_some_iff.mp hstep
      exact ⟨Nat.le_refl _, .refl _, fun _ h => h⟩
  | make r =>
      cases hstep
      exact ⟨Nat.le_refl _, .refl _, fun _ h => h⟩
  | reply msg =>
      obtain ⟨-, hstep⟩ := Option.ite_none_right_eq_some.mp hstep
      cases hstep
      exact ⟨Nat.le_refl _, .refl _, fun _ h => h⟩
  | claim r =>
      rcases step_claim hstep with ⟨e, -, -, -, rfl⟩ | ⟨-, rfl⟩
      · refine ⟨Nat.le_refl _, .refl _, fun x hx => ?_⟩
        rcases List.mem_append.mp hx with hx | hx
        · exact List.mem_append_left _ (List.mem_append_left _ hx)
        · exact List.mem_append_right _ hx
      · exact ⟨Nat.le_refl _, .refl _, fun _ h => h⟩
  | tell r x =>
      obtain ⟨hr, hstep⟩ := Option.ite_none_right_eq_some.mp hstep
      cases hstep
      refine ⟨Nat.le_refl _, .refl _, fun y hy => ?_⟩
      rcases List.mem_append.mp hy with hy | hy
      · by_cases heq : y = (r, x)
        · exact List.mem_append_right _ (by simp [heq])
        · exact List.mem_append_left _ ((List.mem_erase_of_ne heq).mpr hy)
      · exact List.mem_append_right _ (List.mem_append_left _ hy)
  | elapse number =>
      obtain ⟨deadline, -, -, rfl⟩ := step_elapse hstep
      exact ⟨Nat.le_refl _, .refl _, fun _ h => h⟩
  | stop number =>
      obtain ⟨-, rfl⟩ := step_stop hstep
      exact ⟨Nat.le_refl _, .refl _, fun _ h => h⟩
  | remove number =>
      obtain ⟨-, hstep⟩ := Option.ite_none_right_eq_some.mp hstep
      cases hstep
      exact ⟨Nat.le_refl _, .refl _, fun _ h => h⟩

theorem run_grows {acts : List Act} (hrun : run step s acts = some t) : Grows s t :=
  run_invariant (P := fun t => Grows s t) (fun _ _ _ h hstep => h.trans (step_grows hstep)) (.refl s)
    ⟨acts, hrun⟩

/-! ## Entries leave once

Counting over a run needs its actions and not only its states. `departures` lists the actions with
which the entry of a number leaves the table; there is at most one, and before it the entry is
there. -/

/-- The actions of a run with which the entry of the number leaves the table. -/
def departures (n : Nat) : PendingSockets → List Act → List Act
  | _, [] => []
  | s, a :: acts =>
      match s.step a with
      | none => []
      | some t =>
          (if (s.table n).isSome = true ∧ t.table n = none then [a] else []) ++ departures n t acts

theorem departures_cons {acts : List Act} (hstep : s.step a = some t) :
    departures n s (a :: acts) =
      (if (s.table n).isSome = true ∧ t.table n = none then [a] else []) ++ departures n t acts := by
  simp only [departures, hstep]

/-- The entry of the number has left the table. -/
def Gone (n : Nat) (s : PendingSockets) : Prop := s.table n = none ∧ (s.drawn n).isSome = true

/-- The entry of the number is still in the table, if it was ever there. -/
def Present (n : Nat) (s : PendingSockets) : Prop :=
  ∀ e d, s.DrawnFor n e d → s.table n = some e

/-- A number is not drawn again. -/
theorem Gone.step (h : Gone n s) (hstep : s.step a = some t) : Gone n t := by
  obtain ⟨htable, hdrawn⟩ := h
  have hdrawn' : (t.drawn n).isSome = true := by
    obtain ⟨v, hv⟩ := Option.isSome_iff_exists.mp hdrawn
    exact Option.isSome_iff_exists.mpr ⟨v, (step_grows hstep).drawn n v hv⟩
  refine ⟨?_, hdrawn'⟩
  rcases step_table hstep with ⟨n', e, -, htakes⟩ | ⟨port, socket, n', -, hfresh, -, ht, -⟩ | ⟨ht, -⟩
  · rw [htakes.table]
    by_cases hn : n = n'
    · rw [hn]
      exact Function.update_self ..
    · exact (Function.update_of_ne hn ..).trans htable
  · -- an entry that is put in has a number that was never drawn
    have hn : n ≠ n' := by
      rintro rfl
      rw [hfresh] at hdrawn
      cases hdrawn
    rw [ht]
    exact (Function.update_of_ne hn ..).trans htable
  · rw [ht]
    exact htable

theorem departures_of_gone {acts : List Act} (h : Gone n s) : departures n s acts = [] := by
  induction acts generalizing s with
  | nil => rfl
  | cons a acts ih =>
      cases hstep : s.step a with
      | none => simp only [departures, hstep]
      | some t =>
          -- it is not there to leave
          have hstays : ¬ ((s.table n).isSome = true ∧ t.table n = none) := by
            rintro ⟨hsome, -⟩
            rw [h.1] at hsome
            cases hsome
          rw [departures_cons hstep, if_neg hstays, ih (h.step hstep)]
          rfl

/-- **An entry leaves the table at most once.** -/
theorem length_departures_le {acts : List Act} (h : s.Sound) : (departures n s acts).length ≤ 1 := by
  induction acts generalizing s with
  | nil => exact Nat.zero_le 1
  | cons a acts ih =>
      cases hstep : s.step a with
      | none => simp [departures, hstep]
      | some t =>
          rw [departures_cons hstep]
          split
          · rename_i hleaves
            obtain ⟨hsome, hnone⟩ := hleaves
            obtain ⟨e, he⟩ := Option.isSome_iff_exists.mp hsome
            obtain ⟨d, hd⟩ := h.table n e he
            -- what has left stays away
            have hgone : Gone n t :=
              ⟨hnone, Option.isSome_iff_exists.mpr ⟨_, (step_grows hstep).drawn n _ hd⟩⟩
            rw [departures_of_gone hgone]
            exact Nat.le_refl 1
          · exact ih (h.step hstep)

/-- An action of the list is a step of the run that takes the entry out. -/
theorem mem_departures {acts : List Act} (ha : a ∈ departures n s acts) :
    ∃ before behind u v e, acts = before ++ a :: behind ∧ run step s before = some u ∧
      u.step a = some v ∧ u.table n = some e ∧ v.table n = none := by
  induction acts generalizing s with
  | nil => cases ha
  | cons b acts ih =>
      cases hstep : s.step b with
      | none => simp [departures, hstep] at ha
      | some t =>
          rw [departures_cons hstep] at ha
          rcases List.mem_append.mp ha with hhead | hrest
          · split at hhead
            · rename_i hleaves
              obtain ⟨hsome, hnone⟩ := hleaves
              obtain ⟨e, he⟩ := Option.isSome_iff_exists.mp hsome
              cases List.mem_singleton.mp hhead
              exact ⟨[], acts, s, t, e, rfl, rfl, hstep, he, hnone⟩
            · cases hhead
          · obtain ⟨before, behind, u, v, e, rfl, hu, hrest⟩ := ih hrest
            exact ⟨b :: before, behind, u, v, e, rfl, run_cons.mpr ⟨t, hstep, hu⟩, hrest⟩

/-- The step with which an entry leaves takes it. -/
theorem takes_of_leaves {e : PendingSocket} (hstep : s.step a = some t) (he : s.table n = some e)
    (hnone : t.table n = none) : Takes s n e a t := by
  rcases step_table hstep with ⟨n', e', he', htakes⟩ | ⟨port, socket, n', -, -, -, ht, -⟩ | ⟨ht, -⟩
  · by_cases hn : n = n'
    · subst hn
      obtain rfl : e = e' := Option.some.inj (he.symm.trans he')
      exact htakes
    · rw [htakes.table, Function.update_of_ne hn, he] at hnone
      cases hnone
  · by_cases hn : n = n'
    · rw [ht, hn, record_self] at hnone
      cases hnone
    · rw [ht, record, Function.update_of_ne hn, he] at hnone
      cases hnone
  · rw [ht, he] at hnone
    cases hnone

theorem Present.step (h : Present n s) (hstep : s.step a = some t)
    (hstays : ¬ ((s.table n).isSome = true ∧ t.table n = none)) : Present n t := by
  intro e d hd
  rcases step_table hstep with ⟨n', e', he', htakes⟩ | ⟨port, socket, n', -, -, -, ht, hdrawn⟩ |
    ⟨ht, hdrawn⟩
  · rw [DrawnFor, htakes.drawn] at hd
    have he : s.table n = some e := h e d hd
    -- the entry that is taken out is another one
    have hn : n ≠ n' := by
      rintro rfl
      refine hstays ⟨by rw [he]; rfl, ?_⟩
      rw [htakes.table]
      exact Function.update_self ..
    rw [htakes.table]
    exact (Function.update_of_ne hn ..).trans he
  · rw [DrawnFor, hdrawn] at hd
    by_cases hn : n = n'
    · subst hn
      rw [record_self] at hd
      cases hd
      rw [ht]
      exact record_self _ _ _
    · have hold : s.DrawnFor n e d := by
        rwa [record, Function.update_of_ne hn] at hd
      rw [ht]
      exact (Function.update_of_ne hn ..).trans (h e d hold)
  · rw [DrawnFor, hdrawn] at hd
    rw [ht]
    exact h e d hd

/-- **An entry that has not left** is there. -/
theorem present_of_run {acts : List Act} (h : Present n s) (hrun : run step s acts = some t)
    (hnone : departures n s acts = []) : Present n t := by
  induction acts generalizing s with
  | nil =>
      cases hrun
      exact h
  | cons a acts ih =>
      obtain ⟨u, hu, hrun⟩ := run_cons.mp hrun
      rw [departures_cons hu, List.append_eq_nil_iff] at hnone
      obtain ⟨hhead, hrest⟩ := hnone
      refine ih (h.step hu ?_) hrun hrest
      intro hleaves
      rw [if_pos hleaves] at hhead
      cases hhead

/-! ## The contract of the table

The parts of the contract are about a single number in a single run: who gets its socket, why its
entry has left, when a request is refused, and that an entry whose timer is not due can only leave
with a request that matches it. -/

/-- What the table guarantees in the state `s` that the run `acts` leads to. -/
structure Contract (acts : List Act) (s : PendingSockets) : Prop where
  /-- A socket leaves the table at most once. -/
  once : ∀ n, (departures n init acts).length ≤ 1
  /-- It leaves to a task with its number, port and protocol, or by its timer after 300 seconds. -/
  cause : ∀ n, ∀ a ∈ departures n init acts, ∃ e d, s.DrawnFor n e d ∧
    ((∃ r, a = .claim r ∧ r.number = n ∧ r.Matches e ∧ (r, e.socket.ext) ∈ s.handed) ∨
      (a = .remove n ∧ d + 300 ≤ s.now))
  /-- No two tasks have got the socket of one number. -/
  single : (s.handed.map fun h => h.1.number).Nodup
  /-- A request that does not match leaves everything as it was. -/
  refused : ∀ r t, s.step (.claim r) = some t →
    (∀ e, s.table r.number = some e → ¬ r.Matches e) → t.table = s.table ∧ t.handed = s.handed
  /-- A request that matches gets the socket. -/
  granted : ∀ r t e, s.step (.claim r) = some t → s.table r.number = some e → r.Matches e →
    (r, e.socket.ext) ∈ t.handed
  /-- No `unwrap` has failed. -/
  calm : s.panicked = false
  /-- The reply to an announced number finds its entry, unless the timer or another request that
  matches it has taken it out. -/
  replies : ∀ msg, .reply msg ∈ acts →
    (∃ e, s.table msg.number = some e ∧ (Request.serverMsg msg).Matches e) ∨
      .remove msg.number ∈ departures msg.number init acts ∨
      ∃ r, .claim r ∈ departures msg.number init acts ∧ r.number = msg.number

theorem refused_of_claim (hstep : s.step (.claim r) = some t)
    (hno : ∀ e, s.table r.number = some e → ¬ r.Matches e) :
    t.table = s.table ∧ t.handed = s.handed := by
  rcases step_claim hstep with ⟨e, he, hmatches, -⟩ | ⟨-, rfl⟩
  · exact absurd hmatches (hno e he)
  · exact ⟨rfl, rfl⟩

theorem granted_of_claim {e : PendingSocket} (hstep : s.step (.claim r) = some t)
    (he : s.table r.number = some e) (hmatches : r.Matches e) : (r, e.socket.ext) ∈ t.handed := by
  rcases step_claim hstep with ⟨e', he', -, -, rfl⟩ | ⟨hno, -⟩
  · obtain rfl : e = e' := Option.some.inj (he.symm.trans he')
    exact List.mem_append_left _ (by simp)
  · exact absurd hmatches (hno e he)

/-- Why an entry has left. -/
theorem cause_of_departure {acts : List Act} (hrun : run step init acts = some s)
    (ha : a ∈ departures n init acts) : ∃ e d, s.DrawnFor n e d ∧
      ((∃ r, a = .claim r ∧ r.number = n ∧ r.Matches e ∧ (r, e.socket.ext) ∈ s.handed) ∨
        (a = .remove n ∧ d + 300 ≤ s.now)) := by
  -- the run is cut at the step with which the entry leaves
  obtain ⟨before, behind, u, v, e, rfl, hu, hstep, he, hnone⟩ := mem_departures ha
  obtain ⟨u', hu', hrest⟩ := run_append.mp hrun
  cases hu.symm.trans hu'
  obtain ⟨v', hv', hbehind⟩ := run_cons.mp hrest
  cases hstep.symm.trans hv'
  have hsound : u.Sound := reaches_sound ⟨before, hu⟩
  have hgrows : Grows v s := run_grows hbehind
  obtain ⟨d, hd⟩ := hsound.table n e he
  have hdrawn : s.DrawnFor n e d := hgrows.drawn n _ ((step_grows hstep).drawn n _ hd)
  refine ⟨e, d, hdrawn, ?_⟩
  cases takes_of_leaves hstep he hnone with
  | claim r _ _ hnumber hmatches _ =>
      subst hnumber
      exact Or.inl ⟨r, rfl, rfl, hmatches, hgrows.handed _ (granted_of_claim hstep he hmatches)⟩
  | remove _ htimer _ =>
      obtain ⟨e', d', hd', hdue⟩ := hsound.removing n htimer
      have heq : (e', d') = (e, d) := Option.some.inj (hd'.symm.trans hd)
      cases heq
      have hnow : u.now ≤ s.now := (step_grows hstep).now.trans hgrows.now
      exact Or.inr ⟨rfl, hdue.trans hnow⟩

/-- What was announced stays in the table until it leaves it. -/
theorem replies_of_run {acts : List Act} (hrun : run step init acts = some s) {msg : NewSocket}
    (hmsg : .reply msg ∈ acts) (hnone : departures msg.number init acts = []) :
    ∃ e, s.table msg.number = some e ∧ (Request.serverMsg msg).Matches e := by
  have hpresent : Present msg.number s :=
    present_of_run (s := init) (by simp [Present, DrawnFor, init]) hrun hnone
  -- the run is cut at the reply, to a number that was announced before
  obtain ⟨before, behind, rfl⟩ := List.append_of_mem hmsg
  obtain ⟨u, hu, hrest⟩ := run_append.mp hrun
  obtain ⟨v, hv, hbehind⟩ := run_cons.mp hrest
  obtain ⟨hannounced, -⟩ := Option.ite_none_right_eq_some.mp hv
  obtain ⟨e, d, hd, hport, hprotocol⟩ :=
    (reaches_sound ⟨before, hu⟩).announced msg.port msg.number (Or.inl hannounced)
  have hdrawn : s.DrawnFor msg.number e d :=
    (run_grows hbehind).drawn _ _ ((step_grows hv).drawn _ _ hd)
  exact ⟨e, hpresent e d hdrawn, Request.serverMsg_matches hport hprotocol⟩

end Step

/-- **The contract of the table of pending sockets** holds in every run: whatever is requested, and
however requests, insertions and timers interleave. -/
theorem contract {acts : List Act} {s : PendingSockets} (hrun : run step init acts = some s) :
    Contract acts s where
  once _ := length_departures_le init_sound
  cause _ _ ha := cause_of_departure hrun ha
  single := (reaches_sound ⟨acts, hrun⟩).once
  refused _ _ hstep hno := refused_of_claim hstep hno
  granted _ _ _ hstep he hmatches := granted_of_claim hstep he hmatches
  calm := (reaches_sound ⟨acts, hrun⟩).calm
  replies msg hmsg := by
    by_cases hnone : departures msg.number init acts = []
    · exact Or.inl (replies_of_run hrun hmsg hnone)
    · obtain ⟨a, ha⟩ := List.exists_mem_of_ne_nil _ hnone
      obtain ⟨e, d, -, ⟨r, rfl, hnumber, -⟩ | ⟨rfl, -⟩⟩ := cause_of_departure hrun ha
      · exact Or.inr (Or.inr ⟨r, ha, hnumber⟩)
      · exact Or.inr (Or.inl ha)

/-- Two requests answer the number 7: the tunnel 1 is forged, the tunnel 2 is that of the client. -/
def forged : List Act :=
  [.add ⟨80, .tcp⟩ (.tcp 20) 7, .notify .ok, .make ⟨.tcp, 80, 7, 1⟩, .claim ⟨.tcp, 80, 7, 1⟩,
    .reply ⟨⟨80, .tcp⟩, 7, 2⟩]

theorem contract_forged :
    ∃ s, run step init forged = some s ∧ Contract forged s ∧ s.taken = [(⟨.tcp, 80, 7, 1⟩, 20)] := by
  obtain ⟨s, hrun, htaken⟩ : ∃ s, run step init forged = some s ∧
      s.taken = [(⟨.tcp, 80, 7, 1⟩, 20)] := ⟨_, rfl, rfl⟩
  exact ⟨s, hrun, contract hrun, htaken⟩

/-- The client finds no entry, although no timer has removed it. -/
theorem not_found_forged :
    ¬ ∀ (acts : List Act) (s t : PendingSockets) (msg : NewSocket), run step init acts = some s →
        .reply msg ∈ acts → s.step (.claim (.serverMsg msg)) = some t → .remove msg.number ∉ acts →
        ∃ e, s.table msg.number = some e ∧ (Request.serverMsg msg).Matches e := by
  intro hall
  obtain ⟨s, t, hrun, hstep, htable⟩ : ∃ s t, run step init forged = some s ∧
      s.step (.claim (.serverMsg ⟨⟨80, .tcp⟩, 7, 2⟩)) = some t ∧ s.table 7 = none :=
    ⟨_, _, rfl, rfl, rfl⟩
  obtain ⟨e, he, -⟩ := hall forged s t ⟨⟨80, .tcp⟩, 7, 2⟩ hrun (by decide) hstep (by decide)
  rw [htable] at he
  cases he

end PendingSockets

end Rslinker
