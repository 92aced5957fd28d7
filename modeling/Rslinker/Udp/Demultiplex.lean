import Rslinker.Udp.Server
import Mathlib.Data.List.Range

set_option autoImplicit false

/-! # Where the datagrams go

Every datagram goes into the channel of one session of its source address, in the order of arrival.
The history of a run is a list with one entry for each datagram: which session it went to, and
whether it made that session. Late removals do not disturb it: they only decide which sessions are
still found through the table.

The main result speaks of a server that is running, without a condition on what has been dropped. A
late removal can make an address get a second session, but no datagram is lost by it and none goes
to another address.
-/

namespace Rslinker.UdpServer

/-- Where a datagram has gone. -/
structure Delivery where
  data : Bytes
  addr : SocketAddr
  session : Nat
  created : Bool
  deriving DecidableEq, Repr

/-- The datagrams that a run receives, with their source addresses. -/
def arrivals (acts : List Act) : List (Bytes × SocketAddr) :=
  acts.filterMap fun
    | .arrive data addr => some (data, addr)
    | _ => none

/-- The datagrams that have gone to the session `i`. -/
def deliveredTo (log : List Delivery) (i : Nat) : List Delivery := log.filter (fun d => d.session = i)

def creating (log : List Delivery) : List Delivery := log.filter (fun d => d.created)

/-- `log` says where each datagram of the run `acts` has gone, and the sessions of `s`, where the
run ends, have these payloads and no others. -/
structure Demultiplexed (acts : List Act) (s : UdpServer) (log : List Delivery) : Prop where
  arrived : log.map (fun d => (d.data, d.addr)) = arrivals acts
  addressed : ∀ d ∈ log, ∃ c, s.clients[d.session]? = some c ∧ c.addr = d.addr
  enqueued : ∀ (i : Nat) (c : UdpClient), s.clients[i]? = some c →
    c.sent = (deliveredTo log i).map Delivery.data
  first : ∀ i, i < s.clients.length →
    ∃ d rest, deliveredTo log i = d :: rest ∧ d.created = true ∧ ∀ e ∈ rest, e.created = false
  handed : s.handed = (creating log).map Delivery.session
  once : s.handed = List.range s.clients.length
  created : ∀ pre data addr post u, acts = pre ++ .arrive data addr :: post →
    run step bind pre = some u →
    ∃ d, log[(arrivals pre).length]? = some d ∧ (d.created = true ↔ ¬ u.CanReceive addr)

/-! ## One more datagram

The history grows at its end. A datagram adds one entry, and all functions of the history are maps
and filters, so what they are for the longer history is what they were, with one more element or
none. -/

section Append

variable {acts : List Act} {log : List Delivery} {i : Nat} {d : Delivery}

theorem arrivals_append (acts acts' : List Act) :
    arrivals (acts ++ acts') = arrivals acts ++ arrivals acts' :=
  List.filterMap_append

theorem deliveredTo_append_self (h : d.session = i) :
    deliveredTo (log ++ [d]) i = deliveredTo log i ++ [d] := by
  simp [deliveredTo, h]

theorem deliveredTo_append_of_ne (h : d.session ≠ i) :
    deliveredTo (log ++ [d]) i = deliveredTo log i := by
  simp [deliveredTo, h]

/-- The datagrams of a longer run, with what is known of the last one. -/
theorem created_append {a : Act} {s : UdpServer} {new : List Delivery}
    (hrun : run step bind acts = some s) (hlen : log.length = (arrivals acts).length)
    (hold : ∀ pre data addr post u, acts = pre ++ .arrive data addr :: post →
      run step bind pre = some u →
      ∃ d, log[(arrivals pre).length]? = some d ∧ (d.created = true ↔ ¬ u.CanReceive addr))
    (hnew : ∀ data addr, a = .arrive data addr →
      ∃ d, new = [d] ∧ (d.created = true ↔ ¬ s.CanReceive addr)) :
    ∀ pre data addr post u, acts ++ [a] = pre ++ .arrive data addr :: post →
      run step bind pre = some u →
      ∃ d, (log ++ new)[(arrivals pre).length]? = some d ∧
        (d.created = true ↔ ¬ u.CanReceive addr) := by
  intro pre data addr post u hsplit hpre
  rcases List.eq_nil_or_concat post with rfl | ⟨post, b, rfl⟩
  · obtain ⟨rfl, hlast⟩ := List.append_inj' hsplit rfl
    obtain ⟨d, rfl, hd⟩ := hnew data addr (List.singleton_inj.mp hlast)
    cases hrun.symm.trans hpre
    exact ⟨d, by rw [← hlen]; simp, hd⟩
  · rw [List.concat_eq_append, ← List.cons_append, ← List.append_assoc] at hsplit
    obtain ⟨hacts, -⟩ := List.append_inj' hsplit rfl
    obtain ⟨d, hd, hiff⟩ := hold pre data addr post u hacts hpre
    have hlt : (arrivals pre).length < log.length := (List.getElem?_eq_some_iff.mp hd).1
    exact ⟨d, by rw [List.getElem?_append_left hlt]; exact hd, hiff⟩

end Append

/-! ## The steps

Of a serving server only the receive task makes entries in the history. Everything else leaves it
alone: sessions are accepted, read and dropped, and a late removal takes an entry out of the table,
so that a session is no longer found there. What has been sent to whom stays. -/

section Steps

variable {acts : List Act} {s t : UdpServer} {log : List Delivery}

/-- The server is running, and its `UdpServer` has not been dropped. -/
def Serving (s : UdpServer) : Prop := s.receiver = .running ∧ s.owner = .alive

theorem Demultiplexed.length_eq (h : Demultiplexed acts s log) :
    log.length = (arrivals acts).length := by
  rw [← h.arrived, List.length_map]

/-- No datagram has gone to a session that does not exist. -/
theorem Demultiplexed.deliveredTo_fresh (h : Demultiplexed acts s log) :
    deliveredTo log s.clients.length = [] := by
  refine List.filter_eq_nil_iff.mpr ?_
  intro d hd hsession
  obtain ⟨c, hc, -⟩ := h.addressed d hd
  have hlt : d.session < s.clients.length := (List.getElem?_eq_some_iff.mp hc).1
  have heq : d.session = s.clients.length := by simpa using hsession
  omega

/-- A step that receives no datagram leaves the history as it is. -/
theorem Demultiplexed.of_settles {a : Act} (h : Demultiplexed acts s log)
    (hrun : run step bind acts = some s) (ha : ∀ data addr, a ≠ .arrive data addr)
    (hlength : t.clients.length = s.clients.length) (hhanded : t.handed = s.handed)
    (hlater : ∀ (i : Nat) (c' : UdpClient), t.clients[i]? = some c' →
      ∃ c, s.clients[i]? = some c ∧ Later c c') :
    Demultiplexed (acts ++ [a]) t log := by
  have hnone : arrivals [a] = [] := by
    cases a with
    | arrive data addr => exact absurd rfl (ha data addr)
    | _ => rfl
  refine ⟨?_, ?_, ?_, ?_, ?_, ?_, ?_⟩
  · rw [arrivals_append, hnone, List.append_nil, h.arrived]
  · intro d hd
    obtain ⟨c, hc, haddr⟩ := h.addressed d hd
    have hlt : d.session < t.clients.length := by
      rw [hlength]
      exact (List.getElem?_eq_some_iff.mp hc).1
    obtain ⟨c₀, hc₀, hl⟩ := hlater _ _ (List.getElem?_eq_getElem hlt)
    rw [hc] at hc₀
    cases hc₀
    exact ⟨_, List.getElem?_eq_getElem hlt, hl.addr.trans haddr⟩
  · intro i c' hc'
    obtain ⟨c, hc, hl⟩ := hlater i c' hc'
    rw [hl.sent, h.enqueued i c hc]
  · rw [hlength]
    exact h.first
  · rw [hhanded]
    exact h.handed
  · rw [hhanded, hlength]
    exact h.once
  · rw [← List.append_nil log]
    exact created_append hrun h.length_eq h.created fun data addr heq => absurd heq (ha data addr)

/-- A datagram goes into the channel of a session that can receive. -/
theorem Demultiplexed.sent {data : Bytes} {addr : SocketAddr} {i : Nat} {c : UdpClient}
    (h : Demultiplexed acts s log) (hrun : run step bind acts = some s)
    (hc : s.clients[i]? = some c) (haddr : c.addr = addr) (hcan : s.CanReceive addr) :
    Demultiplexed (acts ++ [.arrive data addr])
      { s with clients := s.clients.set i { c with sent := c.sent ++ [data] } }
      (log ++ [⟨data, addr, i, false⟩]) := by
  have hlt : i < s.clients.length := (List.getElem?_eq_some_iff.mp hc).1
  refine ⟨?_, ?_, ?_, ?_, ?_, ?_, ?_⟩
  · rw [arrivals_append, List.map_append, h.arrived]
    rfl
  · -- the sessions keep their addresses
    intro d hd
    have hkeep : ∀ (j : Nat) (d : UdpClient), s.clients[j]? = some d → ∃ e : UdpClient,
        (s.clients.set i { c with sent := c.sent ++ [data] })[j]? = some e ∧ e.addr = d.addr := by
      intro j d hd
      by_cases hij : i = j
      · subst hij
        rw [hc] at hd
        cases hd
        exact ⟨_, List.getElem?_set_self hlt, rfl⟩
      · exact ⟨d, by rw [List.getElem?_set_ne hij]; exact hd, rfl⟩
    rcases List.mem_append.mp hd with hd | hd
    · obtain ⟨e, he, headdr⟩ := h.addressed d hd
      obtain ⟨e', he', heq⟩ := hkeep _ e he
      exact ⟨e', he', heq.trans headdr⟩
    · rw [List.mem_singleton.mp hd]
      obtain ⟨e', he', heq⟩ := hkeep i c hc
      exact ⟨e', he', heq.trans haddr⟩
  · intro j d hd
    by_cases hij : i = j
    · subst hij
      rw [List.getElem?_set_self hlt] at hd
      cases hd
      rw [deliveredTo_append_self rfl, List.map_append, ← h.enqueued i c hc]
      rfl
    · rw [List.getElem?_set_ne hij] at hd
      rw [deliveredTo_append_of_ne hij]
      exact h.enqueued j d hd
  · intro j hj
    rw [List.length_set] at hj
    obtain ⟨d, rest, hd, hcreated, hrest⟩ := h.first j hj
    by_cases hij : i = j
    · subst hij
      refine ⟨d, rest ++ [⟨data, addr, i, false⟩], ?_, hcreated, ?_⟩
      · rw [deliveredTo_append_self rfl, hd, List.cons_append]
      · intro e he
        rcases List.mem_append.mp he with he | he
        · exact hrest e he
        · rw [List.mem_singleton.mp he]
    · exact ⟨d, rest, by rw [deliveredTo_append_of_ne hij]; exact hd, hcreated, hrest⟩
  · have hold : creating (log ++ [⟨data, addr, i, false⟩]) = creating log := by simp [creating]
    rw [hold]
    exact h.handed
  · rw [List.length_set]
    exact h.once
  · refine created_append hrun h.length_eq h.created ?_
    intro data' addr' heq
    cases heq
    exact ⟨_, rfl, by simp [hcan]⟩

/-- A datagram makes a session, which is handed out. -/
theorem Demultiplexed.made {data : Bytes} {addr : SocketAddr} (h : Demultiplexed acts s log)
    (hrun : run step bind acts = some s) (hcan : ¬ s.CanReceive addr) :
    Demultiplexed (acts ++ [.arrive data addr])
      { s.insert ⟨addr, [data], 0, false⟩ with handed := s.handed ++ [s.clients.length] }
      (log ++ [⟨data, addr, s.clients.length, true⟩]) := by
  have hfresh := h.deliveredTo_fresh
  have hlen : (s.insert ⟨addr, [data], 0, false⟩).clients.length = s.clients.length + 1 := by
    simp [insert]
  refine ⟨?_, ?_, ?_, ?_, ?_, ?_, ?_⟩
  · rw [arrivals_append, List.map_append, h.arrived]
    rfl
  · intro d hd
    rcases List.mem_append.mp hd with hd | hd
    · obtain ⟨c, hc, haddr⟩ := h.addressed d hd
      have hlt : d.session < s.clients.length := (List.getElem?_eq_some_iff.mp hc).1
      exact ⟨c, by simpa [insert, List.getElem?_append, hlt] using hc, haddr⟩
    · rw [List.mem_singleton.mp hd]
      exact ⟨⟨addr, [data], 0, false⟩, by simp [insert], rfl⟩
  · intro j d hd
    rcases getElem?_insert hd with hd | ⟨rfl, rfl⟩
    · have hlt : j < s.clients.length := (List.getElem?_eq_some_iff.mp hd).1
      rw [deliveredTo_append_of_ne (by simp only; omega)]
      exact h.enqueued j d hd
    · rw [deliveredTo_append_self rfl, hfresh]
      rfl
  · intro j hj
    by_cases hlt : j < s.clients.length
    · obtain ⟨d, rest, hd, hcreated, hrest⟩ := h.first j hlt
      exact ⟨d, rest, by rw [deliveredTo_append_of_ne (by simp only; omega)]; exact hd,
        hcreated, hrest⟩
    · have hj' : s.clients.length = j := by
        simp only [hlen] at hj
        omega
      subst hj'
      refine ⟨⟨data, addr, s.clients.length, true⟩, [], ?_, rfl, by simp⟩
      rw [deliveredTo_append_self rfl, hfresh]
      rfl
  · have hnew : creating (log ++ [⟨data, addr, s.clients.length, true⟩])
        = creating log ++ [⟨data, addr, s.clients.length, true⟩] := by simp [creating]
    rw [hnew, List.map_append, ← h.handed]
    rfl
  · simp only [hlen]
    rw [List.range_succ, ← h.once]
  · refine created_append hrun h.length_eq h.created ?_
    intro data' addr' heq
    cases heq
    exact ⟨_, rfl, by simp [hcan]⟩

/-- A server that still serves after a step has served before it. -/
theorem serving_of_step {a : Act} (h : s.step a = some t) (ht : t.Serving) : s.Serving :=
  ⟨running_of_step h ht.1, alive_of_step h ht.2⟩

/-- **A step of a serving server extends the history** by the datagram it receives, if any. -/
theorem step_demultiplexed {a : Act} (h : Demultiplexed acts s log) (hs : EntriesAddressed s)
    (hserving : s.Serving) (hrun : run step bind acts = some s) (hstep : s.step a = some t) :
    ∃ log', Demultiplexed (acts ++ [a]) t log' := by
  rcases step_settles hstep with ⟨data, addr, rfl, -, rfl⟩ | ⟨addr, rfl, rfl⟩ |
    ⟨ha, hsettles, hhanded⟩
  · rcases receive_cases s data addr with ⟨i, c, hentry, hc, hlive, heq⟩ | ⟨hcan, heq⟩
    · obtain ⟨d, hd, haddr⟩ := hs addr i hentry
      cases hc.symm.trans hd
      rw [heq]
      exact ⟨_, h.sent hrun hc haddr ⟨i, c, hentry, hc, hlive⟩⟩
    · have hmade : s.newClient data addr = { s.insert ⟨addr, [data], 0, false⟩ with
          handed := s.handed ++ [s.clients.length] } := by
        rw [newClient_eq]
        simp [hserving.2, insert]
      rw [heq, hmade]
      exact ⟨_, h.made hrun hcan⟩
  · refine ⟨log, h.of_settles hrun (by simp) rfl rfl ?_⟩
    exact fun _ c hc => ⟨c, hc, .refl c⟩
  · exact ⟨log, h.of_settles hrun ha hsettles.length hhanded hsettles.later⟩

end Steps

/-! ## The runs

The statement is about a server that still serves at the end of the run. Then it has served all
along, since neither the task nor the `UdpServer` starts again. -/

theorem demultiplexed_bind : Demultiplexed [] bind [] := by
  refine ⟨rfl, by simp, ?_, ?_, rfl, rfl, ?_⟩
  · intro i c hc
    simp [bind] at hc
  · intro i hi
    simp [bind] at hi
  · intro pre data addr post u hsplit
    simp at hsplit

/-- **Every datagram goes to one session**, of its own source address and in the order of arrival,
and makes that session, which is then handed out, exactly when no session of the address could have
received it. This holds for a server that is running and whose accepting side is alive, whatever
sessions have been dropped and however late their removals run. -/
theorem datagrams_demultiplexed {acts : List Act} {s : UdpServer}
    (hrun : run step bind acts = some s) (hrunning : s.receiver = .running)
    (halive : s.owner = .alive) : ∃ log, Demultiplexed acts s log := by
  have hall : EntriesAddressed s ∧ (s.Serving → ∃ log, Demultiplexed acts s log) := by
    have hbind : EntriesAddressed bind ∧ (bind.Serving → ∃ log, Demultiplexed [] bind log) :=
      ⟨entriesAddressed_bind, fun _ => ⟨[], demultiplexed_bind⟩⟩
    refine run_induction (P := fun s done =>
      EntriesAddressed s ∧ (s.Serving → ∃ log, Demultiplexed done s log)) hbind ?_ hrun
    rintro done s a t hdone ⟨hentries, hlog⟩ hstep
    refine ⟨step_entriesAddressed hentries hstep, fun ht => ?_⟩
    have hserving : s.Serving := serving_of_step hstep ht
    obtain ⟨log, h⟩ := hlog hserving
    exact step_demultiplexed h hentries hserving hdone hstep
  exact hall.2 ⟨hrunning, halive⟩

/-- The rule for a peer that sends again before the entry of its dropped session is removed. -/
theorem datagrams_demultiplexed_sendsAgain :
    ∃ s log, run step bind [.arrive [1] ⟨.v4 0, 4000⟩, .accept, .drop 0, .arrive [2] ⟨.v4 0, 4000⟩,
        .remove ⟨.v4 0, 4000⟩] = some s ∧
      Demultiplexed [.arrive [1] ⟨.v4 0, 4000⟩, .accept, .drop 0, .arrive [2] ⟨.v4 0, 4000⟩,
        .remove ⟨.v4 0, 4000⟩] s log := by
  have hrun : ∃ s, run step bind [.arrive [1] ⟨.v4 0, 4000⟩, .accept, .drop 0,
      .arrive [2] ⟨.v4 0, 4000⟩, .remove ⟨.v4 0, 4000⟩] = some s ∧ s.receiver = .running ∧
      s.owner = .alive := ⟨_, rfl, rfl, rfl⟩
  obtain ⟨s, hrun, hrunning, halive⟩ := hrun
  obtain ⟨log, hlog⟩ := datagrams_demultiplexed hrun hrunning halive
  exact ⟨s, log, hrun, hlog⟩

end Rslinker.UdpServer
