import Rslinker.System.Pending

set_option autoImplicit false

/-! # The pending sockets of the system

The pending sockets of a controller in the whole system are those of `System/Pending.lean`: every
step of the system is a run of the table, in which the tasks are replies to announced numbers and the
timers wait for their 300 seconds.

So the contract of the table, which is about arbitrary requests, holds for the requests of the
system. In it a request is refused only when its entry has left the table.
-/

namespace Rslinker

namespace World

variable {w w' : World}

/-! ## What a step of the system does to the tables

A step of the system concerns the table of at most one controller, and most steps concern none.
Seen from the tables the steps are those of `Pending.lean`: an entry comes in, a task is started
for a tunnel that has arrived, and an entry leaves with a task or by its timer. -/

/-- The task asks for what its number was drawn for. -/
def Asks (r : Registry) (t : ChannelTask) : Prop :=
  ∃ p x, r.issued t.number = some (t.controller, p, x) ∧ t.protocol = p.protocol ∧ t.port = p.port

/-- The entry leaves its table. -/
def dropPending (w : World) (c : ControllerId) (n : Nat) :
    ControllerId → Nat → Option PendingSocket :=
  Function.update w.pending c (Function.update (w.pending c) n none)

/-- The step from `w` to `w'`, as the tables see it. -/
inductive TableStep (w w' : World) : Prop
  | frame (hpending : w'.pending = w.pending) (hissued : w'.reg.issued = w.reg.issued)
      (htasks : ∀ t ∈ w'.tasks, t ∈ w.tasks ∨ Asks w.reg t)
  | add (c : ControllerId) (n : Nat) (p : Port) (x : LocalSocket) (hfresh : w.reg.issued n = none)
      (hprotocol : x.protocol = p.protocol)
      (hpending : w'.pending = (w.addPending c n p x).pending)
      (hissued : w'.reg.issued = (w.addPending c n p x).reg.issued) (htasks : w'.tasks = w.tasks)
  | timeout (c : ControllerId) (n : Nat) (hpending : w'.pending = w.dropPending c n)
      (hissued : w'.reg.issued = w.reg.issued) (htasks : w'.tasks = w.tasks)
  | claim (t : ChannelTask) (ht : t ∈ w.tasks) (hpending : w'.pending = (w.claimPending t).pending)
      (hissued : w'.reg.issued = w.reg.issued) (htasks : w'.tasks = w.tasks.erase t)

/-- The tables, the numbers and the tasks are the same. -/
structure SameTables (w w' : World) : Prop where
  pending : w'.pending = w.pending
  issued : w'.reg.issued = w.reg.issued
  tasks : w'.tasks = w.tasks

namespace SameTables

variable {u : World}

theorem trans (h : SameTables w u) (h' : SameTables u w') : SameTables w w' :=
  ⟨h'.pending.trans h.pending, h'.issued.trans h.issued, h'.tasks.trans h.tasks⟩

theorem tableStep (h : SameTables w w') : TableStep w w' :=
  .frame h.pending h.issued fun _ ht => Or.inl (h.tasks ▸ ht)

theorem connect {q : ConnId} {info : ConnInfo} (hw : w.connect q info = some w') :
    SameTables w w' := by
  obtain ⟨-, hw⟩ := Option.ite_none_right_eq_some.mp hw
  cases hw
  exact ⟨rfl, rfl, rfl⟩

theorem withServer {a : PortSystem.Act} (hw : w.withServer a = some w') : SameTables w w' := by
  obtain ⟨server, -, rfl⟩ := Option.map_eq_some_iff.mp hw
  exact ⟨rfl, rfl, rfl⟩

theorem sendIf (w : World) (delivered : Bool) (q : ConnId) (msg : Server.JsonMessage) :
    SameTables w (w.sendIf delivered q msg) := by
  cases delivered
  all_goals exact ⟨rfl, rfl, rfl⟩

theorem sendTo (w : World) (c : ControllerId) (msg : NewSocket) :
    SameTables w (w.sendTo c msg) := by
  unfold World.sendTo
  split
  · split
    all_goals exact ⟨rfl, rfl, rfl⟩
  · exact ⟨rfl, rfl, rfl⟩

theorem newController {c : ControllerId} {q : ConnId} (hw : w.newController c q = some w') :
    SameTables w w' := by
  obtain ⟨-, hw⟩ := Option.ite_none_right_eq_some.mp hw
  obtain ⟨server, -, rfl⟩ := Option.map_eq_some_iff.mp hw
  exact ⟨rfl, rfl, rfl⟩

theorem procStep {k : ClientId} {pr : ClientProc} {a : ClientAct}
    (hw : w.procStep k pr a = some w') : SameTables w w' := by
  cases procStep_does hw with
  | reconnect q u _ hu => exact (connect hu).trans ⟨rfl, rfl, rfl⟩
  | sent | lost | received | readFails | giveUp => exact ⟨rfl, rfl, rfl⟩

theorem clientStep {resolve : String → Option CacheAddr} {k : ClientId} {a : ClientAct}
    (hw : w.clientStep resolve k a = some w') : SameTables w w' := by
  cases clientStep_does hw with
  | start _ _ _ _ _ _ u _ _ hu => exact (connect hu).trans ⟨rfl, rfl, rfl⟩
  | openTunnel channel q u _ _ hu => exact (connect hu).trans ⟨rfl, rfl, rfl⟩
  | dropChannel => exact ⟨rfl, rfl, rfl⟩
  | proc _ pr _ _ hw => exact procStep hw

theorem serverStep {a : ServerAct} (hw : w.serverStep a = some w') : SameTables w w' := by
  cases a with
  | onNewConnection q fresh =>
      obtain ⟨-, hw⟩ := Option.ite_none_right_eq_some.mp hw
      have hread : SameTables w ((w.dropUp q).serve q) := ⟨rfl, rfl, rfl⟩
      split at hw
      · cases hw
      · exact hread.trans (newController hw)
      · cases hw
        exact hread.trans (sendTo _ _ _)
      · cases hw
        exact hread
  | dropConnection q =>
      cases hw
      exact ⟨rfl, rfl, rfl⟩

end SameTables

/-- A message of the mailbox names the number and the port its tunnel was opened for. -/
theorem asks_of_mailbox (h : w.Labelled) {c : ControllerId} {msg : NewSocket}
    (hmsg : msg ∈ w.mailbox c) :
    Asks w.reg ⟨c, msg.port.protocol, msg.port.port, msg.number, msg.socket⟩ := by
  obtain ⟨info, ch, hinfo, hch, hid, hport, hnumber⟩ := h.mailbox c msg hmsg
  obtain ⟨⟨⟨x, hissued⟩, -, -, -⟩, -⟩ := h.sound.tunnels _ info ch hinfo hch
  rw [hid, hport, hnumber] at hissued
  exact ⟨msg.port, x, hissued, rfl, rfl⟩

theorem sessionStep_table (h : w.Labelled) {c : ControllerId} {q : ConnId} {a : ControllerAct}
    (hw : w.sessionStep c q a = some w') : TableStep w w' := by
  have hread : SameTables w (w.dropUp q) := ⟨rfl, rfl, rfl⟩
  cases sessionStep_does hw with
  | acceptClient result u hu => exact ((SameTables.withServer hu).trans (.sendIf _ _ _ _)).tableStep
  | recvConfig msg rest _ _ hw => exact (hread.trans (.withServer hw)).tableStep
  | recvFails _ hw => exact (SameTables.withServer hw).tableStep
  | reserve _ hw => exact (SameTables.withServer hw).tableStep
  | reply accepted success result u _ hu =>
      exact ((SameTables.withServer hu).trans (.sendIf _ _ _ _)).tableStep
  | recvMsg msg rest _ _ hw => exact (hread.trans (.withServer hw)).tableStep
  | readFails event _ hw => exact (SameTables.withServer hw).tableStep
  | monitorError number result port report rest _ _ hw =>
      have hrest : SameTables w { w with reports := Function.update w.reports c rest } :=
        ⟨rfl, rfl, rfl⟩
      exact (hrest.trans (.withServer hw)).tableStep
  | newChannel number result port report rest socket u hreports hsocket hfresh hu =>
      have hrest : SameTables w { w with reports := Function.update w.reports c rest } :=
        ⟨rfl, rfl, rfl⟩
      have hsame : SameTables w u := hrest.trans (.withServer hu)
      have hsend := SameTables.sendIf (u.addPending c number port socket) result.delivered q
        (.newChannel port number)
      have hprotocol := (h.reports c port report socket (by simp [hreports]) hsocket).2
      refine .add c number port socket hfresh hprotocol ?_ ?_ ?_
      · rw [hsend.pending]
        simp only [addPending, hsame.pending]
      · rw [hsend.issued]
        simp only [addPending, hsame.issued]
      · exact hsend.tasks.trans hsame.tasks
  | serverMsg msg rest _ hmailbox hw =>
      have hsame := SameTables.withServer hw
      refine .frame hsame.pending hsame.issued ?_
      intro t ht
      rw [hsame.tasks] at ht
      rcases List.mem_append.mp ht with hold | hnew
      · exact Or.inl hold
      · rw [List.mem_singleton.mp hnew]
        exact Or.inr (asks_of_mailbox h (by simp [hmailbox]))
  | cleanup _ hw => exact (SameTables.withServer hw).tableStep

/-- A claim takes out an entry with the number, port and protocol of the task, or nothing. -/
theorem claimPending_cases (w : World) (t : ChannelTask) :
    (∃ e, w.pending t.controller t.number = some e ∧ e.port = t.port ∧
      e.socket.protocol = t.protocol ∧
      (w.claimPending t).pending = w.dropPending t.controller t.number) ∨
    ((∀ e, w.pending t.controller t.number = some e →
      ¬ (e.port = t.port ∧ e.socket.protocol = t.protocol)) ∧
      (w.claimPending t).pending = w.pending) := by
  unfold claimPending
  cases he : w.pending t.controller t.number with
  | none => exact Or.inr ⟨by simp, rfl⟩
  | some e =>
      by_cases hmatches : e.port = t.port ∧ e.socket.protocol = t.protocol
      · exact Or.inl ⟨e, rfl, hmatches.1, hmatches.2, by simp only [if_pos hmatches]; rfl⟩
      · refine Or.inr ⟨?_, by simp only [if_neg hmatches]⟩
        intro e' he'
        cases he'
        exact hmatches

/-- A claim does not read the list of tasks, and writes only the table and the joins. -/
theorem claimPending_fields (w : World) (t : ChannelTask) (tasks : List ChannelTask) :
    ({ w with tasks := tasks }.claimPending t).reg = w.reg ∧
      ({ w with tasks := tasks }.claimPending t).tasks = tasks ∧
      ({ w with tasks := tasks }.claimPending t).pending = (w.claimPending t).pending := by
  unfold claimPending
  cases w.pending t.controller t.number with
  | none => exact ⟨rfl, rfl, rfl⟩
  | some e =>
      simp only
      split
      all_goals exact ⟨rfl, rfl, rfl⟩

/-- **What a step of the system does to the tables.** -/
theorem step_table {resolve : String → Option CacheAddr} (h : w.Labelled) {a : Act}
    (hw : w.step resolve a = some w') : TableStep w w' := by
  cases a with
  | client k a => exact (SameTables.clientStep hw).tableStep
  | server a => exact (SameTables.serverStep hw).tableStep
  | controller c a =>
      obtain ⟨q, -, hw⟩ := Option.bind_eq_some_iff.mp hw
      exact sessionStep_table h hw
  | env a =>
      cases a with
      | accept c p x =>
          obtain ⟨-, hw⟩ := Option.ite_none_right_eq_some.mp hw
          cases hw
          exact SameTables.tableStep ⟨rfl, rfl, rfl⟩
      | monitorError c p =>
          obtain ⟨-, hw⟩ := Option.ite_none_right_eq_some.mp hw
          cases hw
          exact SameTables.tableStep ⟨rfl, rfl, rfl⟩
      | pendingTimeout c number =>
          cases hw
          exact .timeout c number rfl rfl rfl
      | claim task =>
          obtain ⟨htask, hw⟩ := Option.ite_none_right_eq_some.mp hw
          cases hw
          obtain ⟨hreg, htasks, hpending⟩ := claimPending_fields w task (w.tasks.erase task)
          exact .claim task htask hpending (by rw [hreg]) htasks

def AllAsk (w : World) : Prop := ∀ t ∈ w.tasks, Asks w.reg t

theorem Asks.mono {r r' : Registry} {t : ChannelTask} (h : Asks r t)
    (hle : Extends r.issued r'.issued) : Asks r' t := by
  obtain ⟨p, x, hissued, hrest⟩ := h
  exact ⟨p, x, hle _ _ hissued, hrest⟩

theorem TableStep.allAsk (h : TableStep w w') (hw : w.AllAsk) : w'.AllAsk := by
  cases h with
  | frame _ hissued htasks =>
      intro t ht
      have hold : Asks w.reg t := (htasks t ht).elim (hw t) id
      exact hold.mono (hissued ▸ .refl _)
  | add c n p x hfresh _ _ hissued htasks =>
      intro t ht
      rw [htasks] at ht
      exact (hw t ht).mono (hissued ▸ extends_record hfresh _)
  | timeout c n _ hissued htasks =>
      intro t ht
      rw [htasks] at ht
      exact (hw t ht).mono (hissued ▸ .refl _)
  | claim task _ _ hissued htasks =>
      intro t ht
      rw [htasks] at ht
      exact (hw t (List.mem_of_mem_erase ht)).mono (hissued ▸ .refl _)

end World

/-! ## The simulation

In the system a timer is not a task of its own: its entry may be removed at any time. In the table
it has to wait for its 300 seconds, so one step of the system is answered by many ticks and then
the removal. A task that finds its entry takes it at once; in the table it is first asked for and
then served. -/

namespace PendingSockets

open World

/-- The table is the one of the controller `c`, no task uses it, and the timer of every entry
sleeps. -/
structure Abstracts (c : ControllerId) (w : World) (s : PendingSockets) : Prop where
  labelled : w.Labelled
  asks : w.AllAsk
  table : s.table = w.pending c
  adding : s.adding = none
  requests : s.requests = []
  drawn : ∀ n, w.reg.issued n = none → s.drawn n = none
  announced : ∀ n p x, w.reg.issued n = some (c, p, x) → (p, n) ∈ s.announced
  sleeping : ∀ n e, s.table n = some e → ∃ d, s.timers n = some (.sleeping d)

theorem abstracts_init (c : ControllerId) : Abstracts c World.init init where
  labelled := labelled_init
  asks := by simp [AllAsk, World.init]
  table := rfl
  adding := rfl
  requests := rfl
  drawn _ _ := rfl
  announced := by simp [World.init]
  sleeping := by simp [init]

variable {c : ControllerId} {w w' : World} {s : PendingSockets}

/-- A step that does not concern the table of the controller. -/
theorem Abstracts.keep (h : Abstracts c w s) (hlabelled : w'.Labelled) (hasks : w'.AllAsk)
    (hpending : w'.pending c = w.pending c) (hle : Extends w.reg.issued w'.reg.issued)
    (hissued : ∀ n p x, w'.reg.issued n = some (c, p, x) → w.reg.issued n = some (c, p, x)) :
    Abstracts c w' s where
  labelled := hlabelled
  asks := hasks
  table := h.table.trans hpending.symm
  adding := h.adding
  requests := h.requests
  drawn n hn := by
    cases hold : w.reg.issued n with
    | none => exact h.drawn n hold
    | some v =>
        rw [hle n v hold] at hn
        cases hn
  announced n p x hn := h.announced n p x (hissued n p x hn)
  sleeping := h.sleeping

/-- A step that draws no number and does not concern the table of the controller. -/
theorem Abstracts.keepIssued (h : Abstracts c w s) (hlabelled : w'.Labelled) (hasks : w'.AllAsk)
    (hpending : w'.pending c = w.pending c) (hissued : w'.reg.issued = w.reg.issued) :
    Abstracts c w' s := by
  apply h.keep hlabelled hasks hpending
  · rw [hissued]
    exact .refl _
  · intro n p x hn
    rwa [hissued] at hn

/-- `new_channel` puts a new entry into the table and announces it. -/
theorem Abstracts.add (h : Abstracts c w s) (hlabelled : w'.Labelled) (hasks : w'.AllAsk) {n : Nat}
    {p : Port} {x : LocalSocket} (hfresh : w.reg.issued n = none) (hprotocol : x.protocol = p.protocol)
    (hpending : w'.pending = (w.addPending c n p x).pending)
    (hissued : w'.reg.issued = (w.addPending c n p x).reg.issued) :
    ∃ t, Reaches step s t ∧ Abstracts c w' t := by
  have hadd : step s (.add p x n) = some { s.addPendingSocket n ⟨x, p.port⟩ (some 300) with
      adding := some (p, n) } := by
    simp [step, h.adding, h.drawn n hfresh, hprotocol]
  -- the table makes two steps of it: the entry, and what the client is told
  refine ⟨_, ⟨[.add p x n, .notify .ok], run_cons.mpr ⟨_, hadd, rfl⟩⟩, ?_⟩
  constructor
  · exact hlabelled
  · exact hasks
  · rw [hpending]
    show record s.table n _ = Function.update w.pending c _ c
    rw [Function.update_self, h.table]
  · rfl
  · exact h.requests
  · intro n' hn'
    rw [hissued] at hn'
    have hne : n' ≠ n := by
      rintro rfl
      simp [addPending] at hn'
    have hold : w.reg.issued n' = none := by simpa [addPending, record, hne] using hn'
    exact (Function.update_of_ne hne ..).trans (h.drawn n' hold)
  · intro n' p' x' hn'
    rw [hissued] at hn'
    rcases record_eq_some hn' with ⟨rfl, heq⟩ | hold
    · cases heq
      exact List.mem_append_right _ (by simp)
    · exact List.mem_append_left _ (h.announced n' p' x' hold)
  · intro n' e he
    by_cases hne : n' = n
    · exact ⟨s.now + 300, by rw [hne]; exact Function.update_self ..⟩
    · have hold : s.table n' = some e := by
        have hrecord : record s.table n ⟨x, p.port⟩ n' = some e := he
        rwa [record, Function.update_of_ne hne] at hrecord
      obtain ⟨d, hd⟩ := h.sleeping n' e hold
      exact ⟨d, (Function.update_of_ne hne ..).trans hd⟩

theorem run_ticks (s : PendingSockets) (k : Nat) :
    run step s (List.replicate k .tick) = some { s with now := s.now + k } := by
  induction k generalizing s with
  | zero => rfl
  | succ k ih =>
      have hnow : s.now + 1 + k = s.now + (k + 1) := by omega
      calc run step s (List.replicate (k + 1) .tick)
          = run step { s with now := s.now + 1 } (List.replicate k .tick) := rfl
        _ = some { s with now := s.now + (k + 1) } := by rw [ih, hnow]

/-- A timer that sleeps lets its time pass and removes its entry. -/
theorem reaches_removed {n d : Nat} (hsleeping : s.timers n = some (.sleeping d)) :
    ∃ now, Reaches step s
      { s.removeEntry n with now := now, timers := Function.update s.timers n none } := by
  refine ⟨s.now + d, ?_⟩
  have helapse : step { s with now := s.now + d } (.elapse n)
      = some { s with now := s.now + d, timers := Function.update s.timers n (some .removing) } := by
    simp [step, hsleeping]
  have hremove : step
        { s with now := s.now + d, timers := Function.update s.timers n (some .removing) } (.remove n)
      = some { s.removeEntry n with now := s.now + d, timers := Function.update s.timers n none } := by
    simp [step, removeEntry]
  exact (Reaches.trans ⟨_, run_ticks s d⟩ (.of_step helapse)).trans (.of_step hremove)

/-- The timer of an entry removes it. -/
theorem Abstracts.timeout (h : Abstracts c w s) (hlabelled : w'.Labelled) (hasks : w'.AllAsk) {n : Nat}
    (hpending : w'.pending = w.dropPending c n) (hissued : w'.reg.issued = w.reg.issued) :
    ∃ t, Reaches step s t ∧ Abstracts c w' t := by
  have htable : w'.pending c = Function.update s.table n none := by
    rw [hpending, dropPending, Function.update_self, h.table]
  cases he : s.table n with
  | none =>
      refine ⟨s, .refl s, h.keepIssued hlabelled hasks ?_ hissued⟩
      rw [htable, ← h.table]
      exact Function.update_eq_self_iff.mpr he.symm
  | some e =>
      obtain ⟨d, hd⟩ := h.sleeping n e he
      obtain ⟨now, hreaches⟩ := reaches_removed hd
      refine ⟨_, hreaches, ?_⟩
      constructor
      · exact hlabelled
      · exact hasks
      · exact htable.symm
      · exact h.adding
      · exact h.requests
      · exact fun n' hn' => h.drawn n' (hissued ▸ hn')
      · exact fun n' p x hn' => h.announced n' p x (hissued ▸ hn')
      · intro n' e' he'
        have hne : n' ≠ n := by
          rintro rfl
          simp [removeEntry] at he'
        obtain ⟨d', hd'⟩ := h.sleeping n' e' (by simpa [removeEntry, hne] using he')
        exact ⟨d', (Function.update_of_ne hne ..).trans hd'⟩

/-- A task answers an announced number, and gets the lock. -/
theorem Abstracts.claim (h : Abstracts c w s) (hlabelled : w'.Labelled) (hasks : w'.AllAsk)
    {t : ChannelTask} (ht : t ∈ w.tasks) (hc : t.controller = c)
    (hpending : w'.pending = (w.claimPending t).pending) (hissued : w'.reg.issued = w.reg.issued) :
    ∃ t, Reaches step s t ∧ Abstracts c w' t := by
  obtain ⟨p, x, hnumber, hprotocol, hport⟩ := h.asks t ht
  rw [hc] at hnumber
  have hmsg : Request.serverMsg ⟨p, t.number, t.socket⟩
      = ⟨t.protocol, t.port, t.number, t.socket⟩ := by
    rw [Request.serverMsg_eq, hprotocol, hport]
  -- a task of the system answers a number that was announced, and gets the lock at once
  have hreply : step s (.reply ⟨p, t.number, t.socket⟩) = some { s with
      requests := [⟨t.protocol, t.port, t.number, t.socket⟩] } := by
    simp [step, h.announced t.number p x hnumber, h.requests, hmsg]
  have hclaim : step { s with requests := [⟨t.protocol, t.port, t.number, t.socket⟩] }
      (.claim ⟨t.protocol, t.port, t.number, t.socket⟩)
      = some ({ s with requests := [] }.takeSocket ⟨t.protocol, t.port, t.number, t.socket⟩) := by
    simp [step]
  refine ⟨_, (Reaches.of_step hreply).trans (.of_step hclaim), ?_⟩
  have hlookup : s.table t.number = w.pending t.controller t.number := by rw [h.table, hc]
  rcases claimPending_cases w t with ⟨e, he, hep, hek, hclaimed⟩ | ⟨hno, hclaimed⟩
  · rcases takeSocket_cases { s with requests := [] } ⟨t.protocol, t.port, t.number, t.socket⟩ with
      ⟨e', -, -, heq⟩ | ⟨hno, -⟩
    · rw [heq]
      constructor
      · exact hlabelled
      · exact hasks
      · rw [hpending, hclaimed, dropPending, hc, Function.update_self, ← h.table]
        rfl
      · exact h.adding
      · rfl
      · exact fun n' hn' => h.drawn n' (hissued ▸ hn')
      · exact fun n' p x hn' => h.announced n' p x (hissued ▸ hn')
      · intro n' e'' he''
        have hne : n' ≠ t.number := by
          rintro rfl
          simp [removeEntry] at he''
        exact h.sleeping n' e'' (by simpa [removeEntry, hne] using he'')
    · exact absurd ⟨hep, Request.isKind_iff.mpr hek⟩ (hno e (hlookup.trans he))
  · rcases takeSocket_cases { s with requests := [] } ⟨t.protocol, t.port, t.number, t.socket⟩ with
      ⟨e, he, hmatches, -⟩ | ⟨-, heq⟩
    · exact absurd ⟨hmatches.1, Request.isKind_iff.mp hmatches.2⟩ (hno e (hlookup.symm.trans he))
    · rw [heq]
      have hkeep := h.keepIssued hlabelled hasks (by rw [hpending, hclaimed]) hissued
      exact { hkeep with requests := rfl }

/-- **The pending sockets of the system** are those of a run of the table. -/
theorem abstracts_run {resolve : String → Option CacheAddr} (c : ControllerId)
    (hrun : Reaches (World.step resolve) World.init w) :
    ∃ s, Reaches step init s ∧ Abstracts c w s := by
  refine run_simulates (R := Abstracts c) ?_ (abstracts_init c) hrun
  intro w w' a s h hstep
  have hlabelled : w'.Labelled := step_labelled h.labelled hstep
  have htable : TableStep w w' := World.step_table h.labelled hstep
  have hasks : w'.AllAsk := htable.allAsk h.asks
  cases htable with
  | frame hpending hissued _ =>
      exact ⟨s, .refl s, h.keepIssued hlabelled hasks (by rw [hpending]) hissued⟩
  | add c' n p x hfresh hprotocol hpending hissued _ =>
      by_cases hc : c = c'
      · subst hc
        exact h.add hlabelled hasks hfresh hprotocol hpending hissued
      · -- the number belongs to another controller
        refine ⟨s, .refl s, h.keep hlabelled hasks ?_ (hissued ▸ extends_record hfresh _) ?_⟩
        · rw [hpending]
          exact Function.update_of_ne hc ..
        · intro n' p' x' hn'
          rw [hissued] at hn'
          rcases record_eq_some hn' with ⟨-, heq⟩ | hold
          · exact absurd (Prod.mk.inj heq).1 hc
          · exact hold
  | timeout c' n hpending hissued _ =>
      by_cases hc : c = c'
      · subst hc
        exact h.timeout hlabelled hasks hpending hissued
      · refine ⟨s, .refl s, h.keepIssued hlabelled hasks ?_ hissued⟩
        rw [hpending]
        exact Function.update_of_ne hc ..
  | claim t ht hpending hissued _ =>
      by_cases hc : t.controller = c
      · exact h.claim hlabelled hasks ht hc hpending hissued
      · refine ⟨s, .refl s, h.keepIssued hlabelled hasks ?_ hissued⟩
        rcases claimPending_cases w t with ⟨e, -, -, -, hclaimed⟩ | ⟨-, hclaimed⟩
        · rw [hpending, hclaimed]
          exact Function.update_of_ne (Ne.symm hc) ..
        · rw [hpending, hclaimed]

/-- **No task of the system is refused by an entry** that is in the table under its number. -/
theorem task_matches {resolve : String → Option CacheAddr}
    (hrun : Reaches (World.step resolve) World.init w) {t : ChannelTask} (ht : t ∈ w.tasks)
    {e : PendingSocket} (he : w.pending t.controller t.number = some e) :
    e.port = t.port ∧ e.socket.protocol = t.protocol := by
  obtain ⟨s, hs, h⟩ := abstracts_run t.controller hrun
  obtain ⟨p, x, hnumber, hprotocol, hport⟩ := h.asks t ht
  have hsound : s.Sound := reaches_sound hs
  obtain ⟨d, hd⟩ := hsound.table t.number e (by rw [h.table, he])
  obtain ⟨e', d', hd', hport', hprotocol'⟩ :=
    hsound.announced p t.number (Or.inl (h.announced _ _ _ hnumber))
  have heq : (e, d) = (e', d') := Option.some.inj (hd.symm.trans hd')
  cases heq
  exact ⟨hport'.trans hport.symm, hprotocol'.trans hprotocol.symm⟩

end PendingSockets

end Rslinker
