import Rslinker.Basic.LittleEndian
import Rslinker.Basic.Transition
import Rslinker.Protocol.Message
import Mathlib.Data.List.Basic

set_option autoImplicit false

/-! # The UDP server

`UdpServer::bind` starts a task that receives all datagrams of a socket and puts each into the
channel of the session of its source address. A table behind a lock holds the sending ends of these
channels; the receiving ends are in the sessions (`UdpClient`), which are handed out through
`accept`. Dropping a session starts a task that removes the entry of its address from the table, and
that task may run at any later time.

Sessions are numbered in the order in which they are created. The receive task holds the lock while
it handles a datagram, so this is one step.
-/

namespace Rslinker

/-- A session with its channel: all payloads ever sent into it, and how many `read` has returned. -/
structure UdpClient where
  addr : SocketAddr
  sent : List Bytes
  received : Nat
  dropped : Bool
  deriving DecidableEq, Repr

namespace UdpClient

def channel (addr : SocketAddr) : UdpClient := ⟨addr, [], 0, false⟩

def send (c : UdpClient) (data : Bytes) : Option UdpClient :=
  if c.dropped then none else some { c with sent := c.sent ++ [data] }

end UdpClient

namespace UdpServer

inductive Receiver
  | running
  /-- It has seen the shutdown signal. -/
  | finished
  /-- `recv_buf_from` has failed. -/
  | failed
  | panicked
  deriving DecidableEq, Repr

inductive Owner
  | alive
  /-- `UdpServer::drop` has queued the shutdown signal. -/
  | signalled
  /-- The fields are dropped too: the queue of new sessions is closed. -/
  | dropped
  deriving DecidableEq, Repr

end UdpServer

/-- The table, the sessions, and the tasks of a UDP port. -/
structure UdpServer where
  /-- The session whose channel the entry of an address sends to. -/
  table : SocketAddr → Option Nat
  clients : List UdpClient
  /-- The sessions sent to `accept`, and how many of them it has returned. -/
  handed : List Nat
  accepted : Nat
  /-- The addresses that dropped sessions still have to remove from the table. -/
  removals : List SocketAddr
  receiver : UdpServer.Receiver
  owner : UdpServer.Owner

namespace UdpServer

def bind : UdpServer := ⟨fun _ => none, [], [], 0, [], .running, .alive⟩

/-- `UdpClient::drop`. -/
def dropClient (s : UdpServer) (i : Nat) : UdpServer :=
  match s.clients[i]? with
  | some c =>
      if c.dropped then s
      else { s with clients := s.clients.set i { c with dropped := true },
                    removals := s.removals ++ [c.addr] }
  | none => s

/-! ## The receive task

For a datagram the task looks up its address. When there is an entry it sends the payload there,
and when that fails, because the session has been dropped in the meantime, it goes on as if there
were none: it makes a session, whose entry replaces the old one. -/

/-- `send` on the sender of a table entry. -/
def send (s : UdpServer) (i : Nat) (data : Bytes) : Option UdpServer :=
  match s.clients[i]? with
  | some c => (c.send data).map fun c' => { s with clients := s.clients.set i c' }
  | none => none

def panic (s : UdpServer) : UdpServer := { s with receiver := .panicked }

/-- The session gets a number and the entry of its address. -/
def insert (s : UdpServer) (c : UdpClient) : UdpServer :=
  { s with clients := s.clients ++ [c],
           table := Function.update s.table c.addr (some s.clients.length) }

/-- The receive task makes a session, puts its first payload into its channel and hands it out. When
nobody accepts any more, the unwrap of that last send fails, and the session is dropped with it. -/
def newClient (s : UdpServer) (data : Bytes) (addr : SocketAddr) : UdpServer :=
  match (UdpClient.channel addr).send data with
  | none => s.panic
  | some c =>
      let i := s.clients.length
      let t := s.insert c
      if s.owner = .dropped then t.panic.dropClient i else { t with handed := t.handed ++ [i] }

/-- What the receive task does with a datagram, under the lock of the table. -/
def receive (s : UdpServer) (data : Bytes) (addr : SocketAddr) : UdpServer :=
  if (s.table addr).isSome then
    match s.table addr with
    | none => s.panic
    | some i =>
        match s.send i data with
        | some t => t
        | none => s.newClient data addr
  else s.newClient data addr

/-! ## The steps

The receive task chooses between a datagram and the shutdown signal. Accepting, reading and
dropping sessions are the other side's, and a removal is a task of its own, which `dropClient` only
queues. -/

inductive Act
  /-- `recv_buf_from` returns a datagram. -/
  | arrive (data : Bytes) (addr : SocketAddr)
  | recvError
  /-- The receive task takes the shutdown arm of its `select!`. -/
  | shutdown
  | accept
  | read (i : Nat)
  /-- A session that was accepted is dropped. -/
  | drop (i : Nat)
  /-- The task started by a dropped session gets the lock and removes the entry of its address. -/
  | remove (addr : SocketAddr)
  /-- `UdpServer::drop` -/
  | signal
  /-- The fields of the `UdpServer` are dropped, and with the queue the sessions in it. -/
  | closeQueue
  deriving DecidableEq, Repr

inductive Read
  | payload (data : Bytes)
  | pending
  /-- The unwrap of the `None` of a closed channel. -/
  | panic
  deriving DecidableEq, Repr

/-- `UdpClient::read` of the session `i`. Its channel is empty and closed when no payload is left in
it and the table, which holds the only sender, has no entry that sends to it. -/
def read (s : UdpServer) (i : Nat) (c : UdpClient) : Read :=
  match c.sent[c.received]? with
  | some data => .payload data
  | none => if s.table c.addr = some i then .pending else .panic

def step (s : UdpServer) : Act → Option UdpServer
  | .arrive data addr => if s.receiver = .running then some (s.receive data addr) else none
  | .recvError => if s.receiver = .running then some { s with receiver := .failed } else none
  | .shutdown =>
      if s.receiver = .running ∧ s.owner ≠ .alive then some { s with receiver := .finished } else none
  | .accept =>
      if s.owner = .alive then
        if s.accepted < s.handed.length then some { s with accepted := s.accepted + 1 }
        else if s.receiver = .running then none
        -- nobody will send a session any more: the unwrap in `accept` fails, which drops the server
        else some { s with owner := .signalled }
      else none
  | .read i =>
      match s.clients[i]? with
      | some c =>
          if i ∈ s.handed.take s.accepted ∧ c.dropped = false then
            match s.read i c with
            | .payload _ => some { s with clients := s.clients.set i { c with received := c.received + 1 } }
            | .pending => none
            | .panic => some (s.dropClient i)
          else none
      | none => none
  | .drop i => if i ∈ s.handed.take s.accepted then some (s.dropClient i) else none
  | .remove addr =>
      if addr ∈ s.removals then
        some { s with table := Function.update s.table addr none, removals := s.removals.erase addr }
      else none
  | .signal => if s.owner = .alive then some { s with owner := .signalled } else none
  | .closeQueue =>
      if s.owner = .signalled then
        some ((s.handed.drop s.accepted).foldl dropClient { s with owner := .dropped })
      else none

/-! ## What the steps do to the sessions

Two summaries of a step, from which the invariants follow without looking at the code again.
`receive_cases` is for a datagram: it is put into one channel, or makes one session. `step_settles`
is for everything else: it removes one entry, or nothing happens to the table and to the payloads.
-/

/-- The table entry of the address leads to a session that can receive. -/
def CanReceive (s : UdpServer) (addr : SocketAddr) : Prop :=
  ∃ i c, s.table addr = some i ∧ s.clients[i]? = some c ∧ c.dropped = false

/-- The same session later on, unless datagrams have come in: it may have been dropped. -/
structure Later (c c' : UdpClient) : Prop where
  addr : c'.addr = c.addr
  sent : c'.sent = c.sent
  dropped : c.dropped = true → c'.dropped = true

/-- The table and the payloads are the same, and there is no new session. -/
structure Settles (s t : UdpServer) : Prop where
  table : t.table = s.table
  length : t.clients.length = s.clients.length
  later : ∀ (i : Nat) (c' : UdpClient), t.clients[i]? = some c' →
    ∃ c, s.clients[i]? = some c ∧ Later c c'

theorem Later.refl (c : UdpClient) : Later c c := ⟨rfl, rfl, id⟩

theorem Later.trans {c c' c'' : UdpClient} (h : Later c c') (h' : Later c' c'') : Later c c'' :=
  ⟨h'.addr.trans h.addr, h'.sent.trans h.sent, fun hd => h'.dropped (h.dropped hd)⟩

theorem Settles.of_eq {s t : UdpServer} (htable : t.table = s.table)
    (hclients : t.clients = s.clients) : Settles s t :=
  ⟨htable, by rw [hclients], fun _ c' hc' => ⟨c', hclients ▸ hc', .refl c'⟩⟩

theorem Settles.trans {s t u : UdpServer} (h : Settles s t) (h' : Settles t u) : Settles s u := by
  refine ⟨h'.table.trans h.table, h'.length.trans h.length, ?_⟩
  intro i c'' hc''
  obtain ⟨c', hc', hlater'⟩ := h'.later i c'' hc''
  obtain ⟨c, hc, hlater⟩ := h.later i c' hc'
  exact ⟨c, hc, hlater.trans hlater'⟩

/-- Replacing a session by the same one later on. -/
theorem settles_set {s : UdpServer} {i : Nat} {c c' : UdpClient} (hc : s.clients[i]? = some c)
    (hlater : Later c c') (removals : List SocketAddr) :
    Settles s { s with clients := s.clients.set i c', removals := removals } := by
  refine ⟨rfl, List.length_set, ?_⟩
  intro j d hd
  rw [List.getElem?_set] at hd
  split at hd
  · rename_i hij
    subst hij
    split at hd
    · cases hd
      exact ⟨c, hc, hlater⟩
    · cases hd
  · exact ⟨d, hd, .refl d⟩

theorem settles_dropClient (s : UdpServer) (i : Nat) : Settles s (s.dropClient i) := by
  unfold dropClient
  split
  · rename_i c hc
    split
    · exact .of_eq rfl rfl
    · have hlater : Later c { c with dropped := true } := ⟨rfl, rfl, fun _ => rfl⟩
      exact settles_set hc hlater _
  · exact .of_eq rfl rfl

theorem settles_foldl_dropClient (l : List Nat) (s : UdpServer) :
    Settles s (l.foldl dropClient s) := by
  induction l generalizing s with
  | nil => exact .of_eq rfl rfl
  | cons i l ih => exact (settles_dropClient s i).trans (ih (s.dropClient i))

/-- **What the receive task does with a datagram**: it puts it into the channel its entry leads to,
or makes a new session when that channel cannot receive. -/
theorem receive_cases (s : UdpServer) (data : Bytes) (addr : SocketAddr) :
    (∃ i c, s.table addr = some i ∧ s.clients[i]? = some c ∧ c.dropped = false ∧
      s.receive data addr
        = { s with clients := s.clients.set i { c with sent := c.sent ++ [data] } }) ∨
    (¬ s.CanReceive addr ∧ s.receive data addr = s.newClient data addr) := by
  rcases htable : s.table addr with _ | i
  · refine Or.inr ⟨?_, by simp [receive, htable]⟩
    rintro ⟨i, c, hi, -⟩
    rw [htable] at hi
    cases hi
  · rcases hc : s.clients[i]? with _ | c
    · refine Or.inr ⟨?_, by simp [receive, send, htable, hc]⟩
      rintro ⟨j, c, hj, hcj, -⟩
      rw [htable] at hj
      cases hj
      rw [hc] at hcj
      cases hcj
    · rcases hd : c.dropped with _ | _
      · exact Or.inl ⟨i, c, rfl, hc, hd, by simp [receive, send, UdpClient.send, htable, hc, hd]⟩
      · refine Or.inr ⟨?_, by simp [receive, send, UdpClient.send, htable, hc, hd]⟩
        rintro ⟨j, c', hj, hcj, hd'⟩
        rw [htable] at hj
        cases hj
        rw [hc] at hcj
        cases hcj
        rw [hd] at hd'
        cases hd'

theorem getElem?_insert {s : UdpServer} {c d : UdpClient} {i : Nat}
    (h : (s.insert c).clients[i]? = some d) :
    s.clients[i]? = some d ∨ (i = s.clients.length ∧ d = c) := by
  rw [show (s.insert c).clients = s.clients ++ [c] from rfl, List.getElem?_append] at h
  split at h
  · exact Or.inl h
  · obtain ⟨hlen, hd⟩ := List.getElem?_eq_some_iff.mp h
    have hi : i = s.clients.length := by
      rw [List.length_singleton] at hlen
      omega
    subst hi
    simp only [Nat.sub_self, List.getElem_cons_zero] at hd
    exact Or.inr ⟨rfl, hd.symm⟩

/-- The session that is made for a datagram. -/
theorem newClient_eq (s : UdpServer) (data : Bytes) (addr : SocketAddr) :
    s.newClient data addr =
      let t := s.insert ⟨addr, [data], 0, false⟩
      if s.owner = .dropped then t.panic.dropClient s.clients.length
      else { t with handed := t.handed ++ [s.clients.length] } := by
  simp [newClient, UdpClient.channel, UdpClient.send]

theorem settles_newClient (s : UdpServer) (data : Bytes) (addr : SocketAddr) :
    Settles (s.insert ⟨addr, [data], 0, false⟩) (s.newClient data addr) := by
  rw [newClient_eq]
  by_cases howner : s.owner = .dropped
  · have hpanic : Settles (s.insert ⟨addr, [data], 0, false⟩)
        (s.insert ⟨addr, [data], 0, false⟩).panic := .of_eq rfl rfl
    simp only [howner, if_true]
    exact hpanic.trans (settles_dropClient _ _)
  · simp only [howner, if_false]
    exact .of_eq rfl rfl

@[simp] theorem dropClient_handed (s : UdpServer) (i : Nat) : (s.dropClient i).handed = s.handed := by
  unfold dropClient
  split
  · split
    · rfl
    · rfl
  · rfl

theorem foldl_dropClient_handed (l : List Nat) (s : UdpServer) :
    (l.foldl dropClient s).handed = s.handed := by
  induction l generalizing s with
  | nil => rfl
  | cons i l ih => rw [List.foldl_cons, ih, dropClient_handed]

/-- **What any other step does**: it removes an entry from the table, or settles. -/
theorem step_settles {s t : UdpServer} {a : Act} (h : s.step a = some t) :
    (∃ data addr, a = .arrive data addr ∧ s.receiver = .running ∧ t = s.receive data addr) ∨
    (∃ addr, a = .remove addr ∧ t = { s with table := Function.update s.table addr none,
                                             removals := s.removals.erase addr }) ∨
    ((∀ data addr, a ≠ .arrive data addr) ∧ Settles s t ∧ t.handed = s.handed) := by
  cases a with
  | arrive data addr =>
      obtain ⟨hrun, h⟩ := Option.ite_none_right_eq_some.mp h
      cases h
      exact Or.inl ⟨data, addr, rfl, hrun, rfl⟩
  | recvError =>
      obtain ⟨-, h⟩ := Option.ite_none_right_eq_some.mp h
      cases h
      exact Or.inr (Or.inr ⟨by simp, .of_eq rfl rfl, rfl⟩)
  | shutdown =>
      obtain ⟨-, h⟩ := Option.ite_none_right_eq_some.mp h
      cases h
      exact Or.inr (Or.inr ⟨by simp, .of_eq rfl rfl, rfl⟩)
  | accept =>
      obtain ⟨-, h⟩ := Option.ite_none_right_eq_some.mp h
      refine Or.inr (Or.inr ?_)
      split at h
      · cases h
        exact ⟨by simp, .of_eq rfl rfl, rfl⟩
      · obtain ⟨-, h⟩ := Option.ite_none_left_eq_some.mp h
        cases h
        exact ⟨by simp, .of_eq rfl rfl, rfl⟩
  | read i =>
      refine Or.inr (Or.inr ?_)
      rcases hc : s.clients[i]? with _ | c
      · simp [step, hc] at h
      · simp only [step, hc] at h
        obtain ⟨-, h⟩ := Option.ite_none_right_eq_some.mp h
        split at h
        · cases h
          have hlater : Later c { c with received := c.received + 1 } := ⟨rfl, rfl, id⟩
          exact ⟨by simp, settles_set hc hlater s.removals, rfl⟩
        · cases h
        · cases h
          exact ⟨by simp, settles_dropClient s i, dropClient_handed s i⟩
  | drop i =>
      obtain ⟨-, h⟩ := Option.ite_none_right_eq_some.mp h
      cases h
      exact Or.inr (Or.inr ⟨by simp, settles_dropClient s i, dropClient_handed s i⟩)
  | remove addr =>
      obtain ⟨-, h⟩ := Option.ite_none_right_eq_some.mp h
      cases h
      exact Or.inr (Or.inl ⟨addr, rfl, rfl⟩)
  | signal =>
      obtain ⟨-, h⟩ := Option.ite_none_right_eq_some.mp h
      cases h
      exact Or.inr (Or.inr ⟨by simp, .of_eq rfl rfl, rfl⟩)
  | closeQueue =>
      obtain ⟨-, h⟩ := Option.ite_none_right_eq_some.mp h
      cases h
      have hclosed : Settles s { s with owner := .dropped } := .of_eq rfl rfl
      exact Or.inr (Or.inr ⟨by simp, hclosed.trans (settles_foldl_dropClient _ _),
        foldl_dropClient_handed _ _⟩)

/-! ## The receive task and the owner

Both only ever come to an end. A receive task that has stopped or panicked stays so, and a
`UdpServer` that was dropped does not accept again. -/

section Ends

variable {s t : UdpServer} {a : Act}

@[simp] theorem dropClient_owner (s : UdpServer) (i : Nat) : (s.dropClient i).owner = s.owner := by
  unfold dropClient
  split
  · split
    · rfl
    · rfl
  · rfl

@[simp] theorem dropClient_receiver (s : UdpServer) (i : Nat) :
    (s.dropClient i).receiver = s.receiver := by
  unfold dropClient
  split
  · split
    · rfl
    · rfl
  · rfl

theorem foldl_dropClient_owner (l : List Nat) (s : UdpServer) :
    (l.foldl dropClient s).owner = s.owner := by
  induction l generalizing s with
  | nil => rfl
  | cons i l ih => rw [List.foldl_cons, ih, dropClient_owner]

theorem receive_owner (s : UdpServer) (data : Bytes) (addr : SocketAddr) :
    (s.receive data addr).owner = s.owner := by
  rcases receive_cases s data addr with ⟨i, c, -, -, -, heq⟩ | ⟨-, heq⟩
  · rw [heq]
  · rw [heq, newClient_eq]
    by_cases howner : s.owner = .dropped
    · simp [howner, panic, insert]
    · simp [howner, insert]

theorem foldl_dropClient_receiver (l : List Nat) (s : UdpServer) :
    (l.foldl dropClient s).receiver = s.receiver := by
  induction l generalizing s with
  | nil => rfl
  | cons i l ih => rw [List.foldl_cons, ih, dropClient_receiver]

/-- The receive task does not start again. -/
theorem running_of_step (h : s.step a = some t) (ht : t.receiver = .running) :
    s.receiver = .running := by
  cases a with
  | arrive data addr => exact (Option.ite_none_right_eq_some.mp h).1
  | recvError => exact (Option.ite_none_right_eq_some.mp h).1
  | shutdown => exact (Option.ite_none_right_eq_some.mp h).1.1
  | accept =>
      obtain ⟨-, h⟩ := Option.ite_none_right_eq_some.mp h
      split at h
      · cases h
        exact ht
      · obtain ⟨-, h⟩ := Option.ite_none_left_eq_some.mp h
        cases h
        exact ht
  | read i =>
      rcases hc : s.clients[i]? with _ | c
      · simp [step, hc] at h
      · simp only [step, hc] at h
        obtain ⟨-, h⟩ := Option.ite_none_right_eq_some.mp h
        split at h
        · cases h
          exact ht
        · cases h
        · cases h
          simpa using ht
  | drop i =>
      obtain ⟨-, h⟩ := Option.ite_none_right_eq_some.mp h
      cases h
      simpa using ht
  | remove addr =>
      obtain ⟨-, h⟩ := Option.ite_none_right_eq_some.mp h
      cases h
      exact ht
  | signal =>
      obtain ⟨-, h⟩ := Option.ite_none_right_eq_some.mp h
      cases h
      exact ht
  | closeQueue =>
      obtain ⟨-, h⟩ := Option.ite_none_right_eq_some.mp h
      cases h
      rwa [foldl_dropClient_receiver] at ht

/-- A `UdpServer` that is dropped stays so. -/
theorem alive_of_step (h : s.step a = some t) (ht : t.owner = .alive) : s.owner = .alive := by
  cases a with
  | arrive data addr =>
      obtain ⟨-, h⟩ := Option.ite_none_right_eq_some.mp h
      cases h
      rwa [receive_owner] at ht
  | recvError =>
      obtain ⟨-, h⟩ := Option.ite_none_right_eq_some.mp h
      cases h
      exact ht
  | shutdown =>
      obtain ⟨-, h⟩ := Option.ite_none_right_eq_some.mp h
      cases h
      exact ht
  | accept => exact (Option.ite_none_right_eq_some.mp h).1
  | read i =>
      rcases hc : s.clients[i]? with _ | c
      · simp [step, hc] at h
      · simp only [step, hc] at h
        obtain ⟨-, h⟩ := Option.ite_none_right_eq_some.mp h
        split at h
        · cases h
          exact ht
        · cases h
        · cases h
          simpa using ht
  | drop i =>
      obtain ⟨-, h⟩ := Option.ite_none_right_eq_some.mp h
      cases h
      simpa using ht
  | remove addr =>
      obtain ⟨-, h⟩ := Option.ite_none_right_eq_some.mp h
      cases h
      exact ht
  | signal => exact (Option.ite_none_right_eq_some.mp h).1
  | closeQueue =>
      obtain ⟨-, h⟩ := Option.ite_none_right_eq_some.mp h
      cases h
      rw [foldl_dropClient_owner] at ht
      cases ht

end Ends

/-! ## Entries lead to sessions of their address

The only thing that is true of the table in every run, with or without late removals. An entry may
lead to a dropped session, and a live session may have lost its entry, but an entry never leads to
a session of another address. -/

def EntriesAddressed (s : UdpServer) : Prop :=
  ∀ addr i, s.table addr = some i → ∃ c, s.clients[i]? = some c ∧ c.addr = addr

theorem entriesAddressed_bind : EntriesAddressed bind := by
  intro addr i hi
  cases hi

theorem Settles.entriesAddressed {s t : UdpServer} (h : Settles s t) (hs : EntriesAddressed s) :
    EntriesAddressed t := by
  intro addr i hi
  rw [h.table] at hi
  obtain ⟨c, hc, haddr⟩ := hs addr i hi
  have hlt : i < t.clients.length := by
    rw [h.length]
    exact (List.getElem?_eq_some_iff.mp hc).1
  have hc' : t.clients[i]? = some t.clients[i] := List.getElem?_eq_getElem hlt
  obtain ⟨d, hd, hlater⟩ := h.later i _ hc'
  rw [hc] at hd
  cases hd
  exact ⟨_, hc', hlater.addr.trans haddr⟩

theorem insert_entriesAddressed {s : UdpServer} {c : UdpClient} (hs : EntriesAddressed s) :
    EntriesAddressed (s.insert c) := by
  intro addr i hi
  by_cases haddr : addr = c.addr
  · subst haddr
    have hi' : s.clients.length = i := by simpa [insert] using hi
    exact ⟨c, by simp [insert, ← hi'], rfl⟩
  · obtain ⟨d, hd, hda⟩ := hs addr i (by simpa [insert, haddr] using hi)
    have hlt : i < s.clients.length := (List.getElem?_eq_some_iff.mp hd).1
    exact ⟨d, by simpa [insert, List.getElem?_append, hlt] using hd, hda⟩

theorem sent_entriesAddressed {s : UdpServer} {i : Nat} {c : UdpClient} {data : Bytes}
    (hc : s.clients[i]? = some c) (hs : EntriesAddressed s) :
    EntriesAddressed { s with clients := s.clients.set i { c with sent := c.sent ++ [data] } } := by
  intro addr j hj
  obtain ⟨d, hd, hda⟩ := hs addr j hj
  by_cases hij : i = j
  · subst hij
    rw [hc] at hd
    cases hd
    exact ⟨_, List.getElem?_set_self (List.getElem?_eq_some_iff.mp hc).1, hda⟩
  · exact ⟨d, by rw [List.getElem?_set_ne hij]; exact hd, hda⟩

theorem step_entriesAddressed {s t : UdpServer} {a : Act} (hs : EntriesAddressed s)
    (h : s.step a = some t) : EntriesAddressed t := by
  rcases step_settles h with ⟨data, addr, -, -, rfl⟩ | ⟨addr, -, rfl⟩ | ⟨-, hsettles, -⟩
  · rcases receive_cases s data addr with ⟨i, c, -, hc, -, heq⟩ | ⟨-, heq⟩
    · rw [heq]
      exact sent_entriesAddressed hc hs
    · rw [heq]
      exact (settles_newClient s data addr).entriesAddressed (insert_entriesAddressed hs)
  · intro addr' i hi
    by_cases haddr : addr' = addr
    · subst haddr
      simp at hi
    · exact hs addr' i (by simpa [haddr] using hi)
  · exact hsettles.entriesAddressed hs

end UdpServer

end Rslinker
