import Rslinker.System.Registry

set_option autoImplicit false

/-! # The invariant behind the pairing

A report of a monitor carries its port, the pending socket a fresh number, `NewChannel` this number
and the port, the channel of the client the id of its session besides, and so `AcceptChannel` back
to the controller. `Labelled` says of everything that is queued, pending or in progress that it
agrees with the registry about them. The lemmas below say it of each thing a step does to the world.

The invariant has one clause for each place where something of a channel may be: reports, pending
sockets, messages in both directions, the mailbox of a controller, the tasks and the joins. None of
them looks at any other, only at the registry.
-/

namespace Rslinker

open Registry

/-- The join pairs an external connection that its controller has accepted on a port with a tunnel
that the client of the controller's session has opened for this port, towards the target its links
have for it. -/
def Join.Paired (r : Registry) (j : Join) : Prop :=
  ∃ p info ch links,
    r.AcceptedOn j.socket j.controller p ∧
    r.conns j.tunnel = some info ∧ info.channel = some ch ∧
    r.sessions j.controller = some ch.session ∧ r.OpenedBy ch.session info.owner ∧
    r.built info.owner = some links ∧ links.lookup p = some ch.transfer ∧
    (ch.transfer.isStream ↔ p.protocol = .tcp)

theorem Join.Paired.mono {r r' : Registry} {j : Join} (h : j.Paired r) (hle : r.Le r') :
    j.Paired r' := by
  obtain ⟨p, info, ch, links, hacc, hinfo, hch, hsession, howner, hlinks, htarget⟩ := h
  exact ⟨p, info, ch, links, hacc.mono hle, hle.conns _ _ hinfo, hch, hle.sessions _ _ hsession,
    howner.mono hle, hle.built _ _ hlinks, htarget⟩

/-- A paired join leads nowhere else: whatever the registry says about the external connection and
about the client of the session is said of this tunnel. -/
theorem Join.Paired.only {r : Registry} {j : Join} (h : j.Paired r) {c : ControllerId} {p : Port}
    {q : ConnId} {k : ClientId} {links : Links} {info : ConnInfo} {ch : Channel}
    (hacc : r.AcceptedOn j.socket c p) (hsession : r.sessions c = some q) (hq : r.OpenedBy q k)
    (hlinks : r.built k = some links) (hinfo : r.conns j.tunnel = some info)
    (hch : info.channel = some ch) : info.owner = k ∧ links.lookup p = some ch.transfer := by
  obtain ⟨p', info', ch', links', hacc', hinfo', hch', hsession', howner, hlinks', hlookup, -⟩ := h
  -- every entry of the registry that both sides mention is the same one
  have haccepted : (c, p) = (j.controller, p') :=
    Option.some.inj (hacc.1.symm.trans hacc'.1)
  obtain ⟨rfl, rfl⟩ := Prod.mk.inj haccepted
  obtain rfl : info = info' := Option.some.inj (hinfo.symm.trans hinfo')
  obtain rfl : ch = ch' := Option.some.inj (hch.symm.trans hch')
  obtain rfl : q = ch.session := Option.some.inj (hsession.symm.trans hsession')
  obtain ⟨i, hi, rfl⟩ := hq
  obtain ⟨i', hi', howner⟩ := howner
  obtain rfl : i = i' := Option.some.inj (hi.symm.trans hi')
  rw [howner] at hlinks ⊢
  obtain rfl : links = links' := Option.some.inj (hlinks.symm.trans hlinks')
  exact ⟨rfl, hlookup⟩

namespace World

/-- Everything in the world agrees with the registry. -/
structure Labelled (w : World) : Prop where
  sound : w.reg.Sound
  served : ∀ c q, w.reg.sessions c = some q → w.served q = true
  up : ∀ q c p n, .acceptChannel c p n ∈ w.up q → w.reg.Tunnel q c p n
  acceptClient : ∀ q i, .acceptClient i ∈ w.down q → w.reg.sessions i = some q
  newChannel : ∀ q p n, .newChannel p n ∈ w.down q →
    ∃ c s, w.reg.sessions c = some q ∧ w.reg.issued n = some (c, p, s)
  procs : ∀ k pr, w.procs k = some pr → pr.Genuine w.reg k
  channels : ∀ ch ∈ w.channels, w.reg.Answers ch
  reports : ∀ c p msg s, (p, msg) ∈ w.reports c → msg.socket = some s → w.reg.AcceptedOn s c p
  mailbox : ∀ c, ∀ m ∈ w.mailbox c, w.reg.Tunnel m.socket c m.port m.number
  pending : ∀ c n s, w.pending c n = some s → ∃ p, w.reg.issued n = some (c, p, s.socket)
  tasks : ∀ t ∈ w.tasks, ∃ p, w.reg.Tunnel t.socket t.controller p t.number
  joins : ∀ j ∈ w.joins, j.Paired w.reg

theorem labelled_init : init.Labelled where
  sound := ⟨by simp [init], by simp [init], by simp [init], by simp [init]⟩
  served := by simp [init]
  up := by simp [init]
  acceptClient := by simp [init]
  newChannel := by simp [init]
  procs := by simp [init]
  channels := by simp [init]
  reports := by simp [init]
  mailbox := by simp [init]
  pending := by simp [init]
  tasks := by simp [init]
  joins := by simp [init]

namespace Labelled

variable {w w' : World}

/-- The registry may grow. -/
theorem grow (h : w.Labelled) {r : Registry} (hle : w.reg.Le r) (hsound : r.Sound)
    (hserved : ∀ c q, r.sessions c = some q → w.served q = true) :
    { w with reg := r : World }.Labelled where
  sound := hsound
  served := hserved
  up q c p n hm := (h.up q c p n hm).mono hle
  acceptClient q i hm := hle.sessions _ _ (h.acceptClient q i hm)
  newChannel q p n hm := by
    obtain ⟨c, s, hsession, hissued⟩ := h.newChannel q p n hm
    exact ⟨c, s, hle.sessions _ _ hsession, hle.issued _ _ hissued⟩
  procs k pr hpr := (h.procs k pr hpr).mono hle
  channels ch hch := (h.channels ch hch).mono hle
  reports c p msg s hm hs := (h.reports c p msg s hm hs).mono hle
  mailbox c m hm := (h.mailbox c m hm).mono hle
  pending c n s hs := by
    obtain ⟨p, hp⟩ := h.pending c n s hs
    exact ⟨p, hle.issued _ _ hp⟩
  tasks t ht := by
    obtain ⟨p, hp⟩ := h.tasks t ht
    exact ⟨p, hp.mono hle⟩
  joins j hj := (h.joins j hj).mono hle

/-! ## The parts of a step

A step of the world is made of a few operations on it: a message is put into a queue or taken from
one, a process goes on, an entry is added. Each of them keeps what is labelled, when what it adds
agrees with the registry, so the proof for a step names the operations and shows this for what is
new. -/

theorem setServer (h : w.Labelled) (server : PortSystem) :
    { w with server := server : World }.Labelled := { h with }

theorem setProc (h : w.Labelled) {k : ClientId} {pr : ClientProc} (hpr : pr.Genuine w.reg k) :
    (w.setProc k pr).Labelled := by
  refine { h with procs := ?_ }
  intro k' pr' hk
  have hrecord : record w.procs k pr k' = some pr' := hk
  rcases record_eq_some hrecord with ⟨rfl, rfl⟩ | hold
  · exact hpr
  · exact h.procs k' pr' hold

theorem sendUp (h : w.Labelled) {q : ConnId} {msg : Client.JsonMessage}
    (hmsg : ∀ c p n, msg = .acceptChannel c p n → w.reg.Tunnel q c p n) :
    (w.sendUp q msg).Labelled := by
  refine { h with up := ?_ }
  intro q' c p n hm
  rcases mem_update_push hm with ⟨rfl, rfl⟩ | hm
  · exact hmsg c p n rfl
  · exact h.up q' c p n hm

theorem sendDown (h : w.Labelled) {q : ConnId} {msg : Server.JsonMessage}
    (haccept : ∀ i, msg = .acceptClient i → w.reg.sessions i = some q)
    (hnew : ∀ p n, msg = .newChannel p n →
      ∃ c s, w.reg.sessions c = some q ∧ w.reg.issued n = some (c, p, s)) :
    (w.sendDown q msg).Labelled := by
  refine { h with acceptClient := ?_, newChannel := ?_ }
  · intro q' i hm
    rcases mem_update_push hm with ⟨rfl, rfl⟩ | hm
    · exact haccept i rfl
    · exact h.acceptClient q' i hm
  · intro q' p n hm
    rcases mem_update_push hm with ⟨rfl, rfl⟩ | hm
    · exact hnew p n rfl
    · exact h.newChannel q' p n hm

theorem sendIf (h : w.Labelled) {q : ConnId} {msg : Server.JsonMessage} (delivered : Bool)
    (haccept : ∀ i, msg = .acceptClient i → w.reg.sessions i = some q)
    (hnew : ∀ p n, msg = .newChannel p n →
      ∃ c s, w.reg.sessions c = some q ∧ w.reg.issued n = some (c, p, s)) :
    (w.sendIf delivered q msg).Labelled := by
  cases delivered
  · exact h
  · exact h.sendDown haccept hnew

theorem dropUp (h : w.Labelled) (q : ConnId) : (w.dropUp q).Labelled := by
  refine { h with up := ?_ }
  intro q' c p n hm
  exact h.up q' c p n (mem_of_mem_update (fun _ ha => List.mem_of_mem_tail ha) hm)

theorem dropDown (h : w.Labelled) (q : ConnId) : (w.dropDown q).Labelled := by
  refine { h with acceptClient := ?_, newChannel := ?_ }
  · intro q' i hm
    exact h.acceptClient q' i (mem_of_mem_update (fun _ ha => List.mem_of_mem_tail ha) hm)
  · intro q' p n hm
    exact h.newChannel q' p n (mem_of_mem_update (fun _ ha => List.mem_of_mem_tail ha) hm)

theorem serve (h : w.Labelled) (q : ConnId) : (w.serve q).Labelled := by
  refine { h with served := ?_ }
  intro c q' hsession
  by_cases hq : q' = q
  · subst hq
    exact Function.update_self ..
  · exact (Function.update_of_ne hq ..).trans (h.served c q' hsession)

theorem startChannel (h : w.Labelled) {channel : Option Channel}
    (hch : ∀ ch, channel = some ch → w.reg.Answers ch) : (w.startChannel channel).Labelled := by
  refine { h with channels := ?_ }
  intro ch hm
  rcases List.mem_append.mp hm with hm | hm
  · exact h.channels ch hm
  · exact hch ch (Option.mem_toList.mp hm)

theorem connect (h : w.Labelled) {q : ConnId} {info : ConnInfo}
    (hinfo : ∀ ch, info.channel = some ch → w.reg.Answers ch ∧ info.owner = ch.client)
    (hw : w.connect q info = some w') :
    w'.Labelled ∧ w.reg.Le w'.reg ∧ w'.reg.conns q = some info := by
  obtain ⟨hfresh, hw⟩ := Option.ite_none_right_eq_some.mp hw
  cases hw
  exact ⟨h.grow (le_conns hfresh) (h.sound.conns hfresh hinfo) h.served, le_conns hfresh,
    record_self _ _ _⟩

theorem withServer (h : w.Labelled) {a : PortSystem.Act} (hw : w.withServer a = some w') :
    w'.Labelled ∧ w'.reg = w.reg := by
  obtain ⟨server, -, rfl⟩ := Option.map_eq_some_iff.mp hw
  exact ⟨h.setServer server, rfl⟩

end Labelled

end World

end Rslinker
