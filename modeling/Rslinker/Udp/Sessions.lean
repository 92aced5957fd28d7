import Rslinker.Udp.Server

set_option autoImplicit false

/-! # Live sessions and their table entries

A dropped session removes the entry of its address, whatever the entry says by then. When a datagram
has come in between the drop and the removal, the address has a new session, and the removal takes
away the entry of that one: its channel closes, its `read` panics, and the next datagram makes a
second session of the same address. Nothing else separates a session from its entry.
-/

namespace Rslinker.UdpServer

def Live (s : UdpServer) (i : Nat) (c : UdpClient) : Prop :=
  s.clients[i]? = some c ∧ c.dropped = false

/-- Every live session has the entry of its address, is the only one of its address, and reads from
a channel that is open or not empty. -/
structure SessionsKept (s : UdpServer) : Prop where
  entry : ∀ i c, s.Live i c → s.table c.addr = some i
  unique : ∀ i j c d, s.Live i c → s.Live j d → c.addr = d.addr → i = j
  read : ∀ i c, s.Live i c → s.read i c ≠ .panic

/-- The step does not remove an entry that leads to a live session. -/
def RemovesNoLive (s : UdpServer) (a : Act) : Prop :=
  ∀ addr i c, a = .remove addr → s.table addr = some i → ¬ s.Live i c

/-- The three parts are one. -/
theorem sessionsKept_of_entry {s : UdpServer}
    (h : ∀ i c, s.Live i c → s.table c.addr = some i) : SessionsKept s := by
  refine ⟨h, ?_, ?_⟩
  · intro i j c d hi hj haddr
    have hentry := h i c hi
    rw [haddr, h j d hj] at hentry
    exact (Option.some.inj hentry).symm
  · intro i c hi
    unfold UdpServer.read
    split
    · simp
    · simp [h i c hi]

/-! ## The steps

The three parts of `SessionsKept` are one property, that every live session has its entry. With it
the address determines the session, and the sender in the entry keeps the channel open. A step can
only break it by removing an entry, and does so exactly when the entry leads to a live session. -/

theorem Settles.sessionsKept {s t : UdpServer} (h : Settles s t) (hs : SessionsKept s) :
    SessionsKept t := by
  refine sessionsKept_of_entry ?_
  rintro i c' ⟨hc', hlive⟩
  obtain ⟨c, hc, hlater⟩ := h.later i c' hc'
  have hlive' : c.dropped = false := by
    cases hd : c.dropped with
    | false => rfl
    | true =>
        rw [hlater.dropped hd] at hlive
        cases hlive
  rw [h.table, hlater.addr]
  exact hs.entry i c ⟨hc, hlive'⟩

/-- A new session gets the entry of its address, which no live session has when it is made. -/
theorem insert_kept {s : UdpServer} {c : UdpClient} (hs : SessionsKept s)
    (hnot : ¬ s.CanReceive c.addr) : SessionsKept (s.insert c) := by
  refine sessionsKept_of_entry ?_
  rintro i d ⟨hd, hlive⟩
  rcases getElem?_insert hd with hd | ⟨rfl, rfl⟩
  · have hentry : s.table d.addr = some i := hs.entry i d ⟨hd, hlive⟩
    have hne : d.addr ≠ c.addr := by
      intro haddr
      rw [haddr] at hentry
      exact hnot ⟨i, d, hentry, hd, hlive⟩
    simpa [insert, hne] using hentry
  · simp [insert]

/-- A payload goes into a channel. -/
theorem sent_kept {s : UdpServer} {i : Nat} {c : UdpClient} {data : Bytes}
    (hc : s.clients[i]? = some c) (hs : SessionsKept s) :
    SessionsKept { s with clients := s.clients.set i { c with sent := c.sent ++ [data] } } := by
  refine sessionsKept_of_entry ?_
  rintro j d ⟨hd, hlive⟩
  by_cases hij : i = j
  · subst hij
    rw [List.getElem?_set_self (List.getElem?_eq_some_iff.mp hc).1] at hd
    cases hd
    exact hs.entry i c ⟨hc, hlive⟩
  · rw [List.getElem?_set_ne hij] at hd
    exact hs.entry j d ⟨hd, hlive⟩

/-- **A step keeps the entries of the live sessions**, unless it removes one of them. -/
theorem step_kept {s t : UdpServer} {a : Act} (hs : SessionsKept s) (hC : RemovesNoLive s a)
    (h : s.step a = some t) : SessionsKept t := by
  rcases step_settles h with ⟨data, addr, -, -, rfl⟩ | ⟨addr, ha, rfl⟩ | ⟨-, hsettles, -⟩
  · rcases receive_cases s data addr with ⟨i, c, -, hc, -, heq⟩ | ⟨hnot, heq⟩
    · rw [heq]
      exact sent_kept hc hs
    · rw [heq]
      exact (settles_newClient s data addr).sessionsKept (insert_kept hs hnot)
  · refine sessionsKept_of_entry ?_
    rintro i c ⟨hc, hlive⟩
    have hentry : s.table c.addr = some i := hs.entry i c ⟨hc, hlive⟩
    have hne : c.addr ≠ addr := by
      rintro rfl
      exact hC _ i c ha hentry ⟨hc, hlive⟩
    simpa [hne] using hentry
  · exact hsettles.sessionsKept hs

/-- A step that removes the entry of a live session leaves that session without one. -/
theorem step_not_kept {s t : UdpServer} {a : Act} (hs : EntriesAddressed s)
    (hC : ¬ RemovesNoLive s a) (h : s.step a = some t) : ¬ SessionsKept t := by
  simp only [RemovesNoLive, not_forall, not_not] at hC
  obtain ⟨addr, i, c, rfl, hentry, hlive⟩ := hC
  obtain ⟨d, hd, hda⟩ := hs addr i hentry
  have hcd : c = d := Option.some.inj (hlive.1.symm.trans hd)
  obtain ⟨-, h⟩ := Option.ite_none_right_eq_some.mp h
  cases h
  intro hkept
  have hnone := hkept.entry i c hlive
  rw [hcd, hda] at hnone
  simp at hnone

/-! ## The runs

The condition is about the removals of the run, each in the state in which it takes place. It is
also necessary at once: the state behind such a removal has a live session without an entry. -/

theorem sessionsKept_bind : SessionsKept bind := by
  refine sessionsKept_of_entry ?_
  rintro i c ⟨hc, -⟩
  simp [bind] at hc

/-- **Live sessions keep their entries** in a run, whatever comes in, is dropped and is removed in
whatever order, exactly when no removal task finds that its address has a live session again. -/
theorem sessionsKept_iff {acts : List Act} {s : UdpServer} (hrun : run step bind acts = some s) :
    Throughout step SessionsKept bind acts ↔ StepsMeet step RemovesNoLive bind acts := by
  refine throughout_iff_stepsMeet (I := fun s => SessionsKept s ∧ EntriesAddressed s)
    (fun _ hs => hs.1) ?_ ?_ ⟨sessionsKept_bind, entriesAddressed_bind⟩ hrun
  · exact fun _ _ _ hs hC h => ⟨step_kept hs.1 hC h, step_entriesAddressed hs.2 h⟩
  · exact fun _ _ _ hs hC h => step_not_kept hs.2 hC h

/-- A peer that sends again after its session was dropped and before the entry is removed. -/
def sendsAgain (addr : SocketAddr) : List Act :=
  [.arrive [1] addr, .accept, .drop 0, .arrive [2] addr, .remove addr]

/-- Its second session has lost its entry, while the server is running. -/
theorem not_sessionsKept_sendsAgain :
    ¬ ∀ s : UdpServer, Reaches step bind s → s.receiver = .running → SessionsKept s := by
  intro hall
  let addr : SocketAddr := ⟨.v4 0, 4000⟩
  have hrun : ∃ s : UdpServer, run step bind (sendsAgain addr) = some s ∧ s.receiver = .running ∧
      s.clients[1]? = some ⟨addr, [[2]], 0, false⟩ ∧ s.table addr = none :=
    ⟨_, rfl, rfl, rfl, rfl⟩
  obtain ⟨s, hrun, hrunning, hclient, hentry⟩ := hrun
  have hkept := (hall s ⟨_, hrun⟩ hrunning).entry 1 _ ⟨hclient, rfl⟩
  rw [hentry] at hkept
  cases hkept

/-- A peer that sends again after the entry of its first session was removed. -/
def sendsLater (addr : SocketAddr) : List Act :=
  [.arrive [1] addr, .accept, .drop 0, .remove addr, .arrive [2] addr]

/-- The rule for such a peer. -/
theorem sessionsKept_sendsLater :
    ∃ s, run step bind (sendsLater ⟨.v4 0, 4000⟩) = some s ∧
      Throughout step SessionsKept bind (sendsLater ⟨.v4 0, 4000⟩) := by
  refine ⟨_, rfl, (sessionsKept_iff rfl).mpr ?_⟩
  refine ⟨by simp [RemovesNoLive], fun t ht => ⟨by simp [RemovesNoLive], fun u hu =>
    ⟨by simp [RemovesNoLive], fun v hv => ⟨?_, fun w _ => ⟨by simp [RemovesNoLive], fun _ _ => trivial⟩⟩⟩⟩⟩
  -- when the removal runs, the only session has been dropped
  have ht := Option.some.inj ht
  subst ht
  have hu := Option.some.inj hu
  subst hu
  have hv := Option.some.inj hv
  subst hv
  rintro addr i c ha hentry ⟨hc, hlive⟩
  cases ha
  cases hentry
  cases hc
  cases hlive

end Rslinker.UdpServer
