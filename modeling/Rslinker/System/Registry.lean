import Rslinker.System.Steps

set_option autoImplicit false

/-! # What the registry says about a message

The number of a channel, once it is drawn, stands for one controller, one port and one external
connection; the id of a controller stands for one control connection, and this for one client. The
facts in this file say what a message, a tunnel or a table entry means in these terms. All of them
are about entries of the registry, so they stay true when it grows (`Registry.Le`).

Without the registry the invariant would have to relate every two places at which the parts of a
channel may be. With it each place is related to the registry alone.
-/

namespace Rslinker

namespace Registry

/-- `r'` has all entries of `r`. -/
structure Le (r r' : Registry) : Prop where
  conns : Extends r.conns r'.conns
  sessions : Extends r.sessions r'.sessions
  built : Extends r.built r'.built
  accepted : Extends r.accepted r'.accepted
  issued : Extends r.issued r'.issued

def OpenedBy (r : Registry) (q : ConnId) (k : ClientId) : Prop :=
  ∃ info, r.conns q = some info ∧ info.owner = k

def AcceptedOn (r : Registry) (s : LocalSocket) (c : ControllerId) (p : Port) : Prop :=
  r.accepted s.ext = some (c, p) ∧ s.protocol = p.protocol

/-- The channel answers a number its controller has drawn for its port, in the session of that
controller, with the transfer its client was configured with. -/
structure Answers (r : Registry) (ch : Channel) : Prop where
  issued : ∃ s, r.issued ch.number = some (ch.id, ch.port, s)
  session : r.sessions ch.id = some ch.session
  owner : r.OpenedBy ch.session ch.client
  transfer : ∃ links, r.built ch.client = some links ∧ links.lookup ch.port = some ch.transfer

/-- The connection `q` is the tunnel of a channel with this id, port and number. -/
def Tunnel (r : Registry) (q : ConnId) (c : ControllerId) (p : Port) (n : Nat) : Prop :=
  ∃ info ch, r.conns q = some info ∧ info.channel = some ch ∧ ch.id = c ∧ ch.port = p ∧ ch.number = n

/-- What the entries of the registry have to do with each other. -/
structure Sound (r : Registry) : Prop where
  issued : ∀ n c p s, r.issued n = some (c, p, s) → r.AcceptedOn s c p
  tunnels : ∀ q info ch, r.conns q = some info → info.channel = some ch →
    r.Answers ch ∧ info.owner = ch.client
  built : ∀ k links, r.built k = some links → links.KindsAgree
  sessions : ∀ c c' q, r.sessions c = some q → r.sessions c' = some q → c = c'

section Le

variable {r r' : Registry} {q : ConnId} {k : ClientId} {s : LocalSocket} {c : ControllerId}
  {p : Port} {n : Nat} {ch : Channel}

theorem OpenedBy.mono (h : r.OpenedBy q k) (hle : r.Le r') : r'.OpenedBy q k := by
  obtain ⟨info, hinfo, howner⟩ := h
  exact ⟨info, hle.conns q info hinfo, howner⟩

theorem AcceptedOn.mono (h : r.AcceptedOn s c p) (hle : r.Le r') : r'.AcceptedOn s c p :=
  ⟨hle.accepted _ _ h.1, h.2⟩

theorem Answers.mono (h : r.Answers ch) (hle : r.Le r') : r'.Answers ch := by
  obtain ⟨⟨s, hs⟩, hsession, howner, ⟨links, hlinks, hlookup⟩⟩ := h
  exact ⟨⟨s, hle.issued _ _ hs⟩, hle.sessions _ _ hsession, howner.mono hle,
    ⟨links, hle.built _ _ hlinks, hlookup⟩⟩

theorem Tunnel.mono (h : r.Tunnel q c p n) (hle : r.Le r') : r'.Tunnel q c p n := by
  obtain ⟨info, ch, hinfo, hch⟩ := h
  exact ⟨info, ch, hle.conns q info hinfo, hch⟩

end Le

/-! ## New entries

The registry only grows, and a step adds at most one entry to each of its maps, under a key that is
fresh. Facts about old entries stay, and what has to be shown is about the new one. -/

section Record

variable {r : Registry} {q : ConnId} {k : ClientId} {c : ControllerId} {p : Port} {n : Nat}

theorem le_conns {info : ConnInfo} (h : r.conns q = none) :
    r.Le { r with conns := record r.conns q info } :=
  ⟨extends_record h info, .refl _, .refl _, .refl _, .refl _⟩

theorem le_sessions (h : r.sessions c = none) :
    r.Le { r with sessions := record r.sessions c q } :=
  ⟨.refl _, extends_record h q, .refl _, .refl _, .refl _⟩

theorem le_built {links : Links} (h : r.built k = none) :
    r.Le { r with built := record r.built k links } :=
  ⟨.refl _, .refl _, extends_record h links, .refl _, .refl _⟩

theorem le_accepted {x : ExtId} (h : r.accepted x = none) :
    r.Le { r with accepted := record r.accepted x (c, p) } :=
  ⟨.refl _, .refl _, .refl _, extends_record h (c, p), .refl _⟩

theorem le_issued {s : LocalSocket} (h : r.issued n = none) :
    r.Le { r with issued := record r.issued n (c, p, s) } :=
  ⟨.refl _, .refl _, .refl _, .refl _, extends_record h (c, p, s)⟩

/-- A larger registry is sound when what is new in it is. -/
theorem Sound.extend (hr : r.Sound) {r' : Registry} (hle : r.Le r')
    (hissued : ∀ n c p s, r'.issued n = some (c, p, s) →
      r.issued n = some (c, p, s) ∨ r.AcceptedOn s c p)
    (htunnels : ∀ q info ch, r'.conns q = some info → info.channel = some ch →
      r.conns q = some info ∨ (r.Answers ch ∧ info.owner = ch.client))
    (hbuilt : ∀ k links, r'.built k = some links → r.built k = some links ∨ links.KindsAgree)
    (hsessions : ∀ c c' q, r'.sessions c = some q → r'.sessions c' = some q → c = c') :
    r'.Sound where
  issued n c p s hn := by
    rcases hissued n c p s hn with hold | hnew
    · exact (hr.issued n c p s hold).mono hle
    · exact hnew.mono hle
  tunnels q info ch hq hch := by
    have hanswers : r.Answers ch ∧ info.owner = ch.client := by
      rcases htunnels q info ch hq hch with hold | hnew
      · exact hr.tunnels q info ch hold hch
      · exact hnew
    exact ⟨hanswers.1.mono hle, hanswers.2⟩
  built k links hk := by
    rcases hbuilt k links hk with hold | hnew
    · exact hr.built k links hold
    · exact hnew
  sessions := hsessions

/-- A new connection is a control connection, or the tunnel of a channel of its owner. -/
theorem Sound.conns (hr : r.Sound) {info : ConnInfo} (hfresh : r.conns q = none)
    (hinfo : ∀ ch, info.channel = some ch → r.Answers ch ∧ info.owner = ch.client) :
    ({ r with conns := record r.conns q info } : Registry).Sound := by
  refine hr.extend (le_conns hfresh) (fun _ _ _ _ h => Or.inl h) ?_ (fun _ _ h => Or.inl h)
    hr.sessions
  intro q' info' ch hq hch
  rcases record_eq_some hq with ⟨-, rfl⟩ | hq
  · exact Or.inr (hinfo ch hch)
  · exact Or.inl hq

/-- A connection becomes the session of one controller only. -/
theorem Sound.newSession (hr : r.Sound) (hfresh : r.sessions c = none)
    (hq : ∀ c', r.sessions c' ≠ some q) :
    ({ r with sessions := record r.sessions c q } : Registry).Sound := by
  refine hr.extend (le_sessions hfresh) (fun _ _ _ _ h => Or.inl h) (fun _ _ _ h _ => Or.inl h)
    (fun _ _ h => Or.inl h) ?_
  intro c₁ c₂ q' h₁ h₂
  rcases record_eq_some h₁ with ⟨hc₁, hq₁⟩ | hold₁
  · rcases record_eq_some h₂ with ⟨hc₂, -⟩ | hold₂
    · rw [hc₁, hc₂]
    · rw [hq₁] at hold₂
      exact absurd hold₂ (hq c₂)
  · rcases record_eq_some h₂ with ⟨-, hq₂⟩ | hold₂
    · rw [hq₂] at hold₁
      exact absurd hold₁ (hq c₁)
    · exact hr.sessions c₁ c₂ q' hold₁ hold₂

theorem Sound.newClient (hr : r.Sound) {links : Links} (hfresh : r.built k = none)
    (hlinks : links.KindsAgree) : ({ r with built := record r.built k links } : Registry).Sound := by
  refine hr.extend (le_built hfresh) (fun _ _ _ _ h => Or.inl h) (fun _ _ _ h _ => Or.inl h) ?_
    hr.sessions
  intro k' links' hk
  rcases record_eq_some hk with ⟨-, rfl⟩ | hk
  · exact Or.inr hlinks
  · exact Or.inl hk

theorem Sound.newExternal (hr : r.Sound) {x : ExtId} (hfresh : r.accepted x = none) :
    ({ r with accepted := record r.accepted x (c, p) } : Registry).Sound :=
  hr.extend (le_accepted hfresh) (fun _ _ _ _ h => Or.inl h) (fun _ _ _ h _ => Or.inl h)
    (fun _ _ h => Or.inl h) hr.sessions

theorem Sound.newNumber (hr : r.Sound) {s : LocalSocket} (hfresh : r.issued n = none)
    (hs : r.AcceptedOn s c p) :
    ({ r with issued := record r.issued n (c, p, s) } : Registry).Sound := by
  refine hr.extend (le_issued hfresh) ?_ (fun _ _ _ h _ => Or.inl h) (fun _ _ h => Or.inl h)
    hr.sessions
  intro n' c' p' s' hn
  rcases record_eq_some hn with ⟨-, hv⟩ | hn
  · cases hv
    exact Or.inr hs
  · exact Or.inl hn

end Record

end Registry

/-! ## The state of a client

Through all sessions a client has one connection at a time and the links it was started with, or
fewer. Its id is from the acceptance of the session it is in. -/

/-- A client whose connection is its own, whose links are among those it was started with, and
whose id, from the acceptance on, is that of the controller at the other end. -/
structure ClientProc.Genuine (r : Registry) (k : ClientId) (pr : ClientProc) : Prop where
  owner : r.OpenedBy pr.conn k
  links : ∃ built, r.built k = some built ∧
    ∀ p t, pr.client.config.links.lookup p = some t → built.lookup p = some t
  session : pr.phase = .sendConfig ∨ pr.phase = .awaitConfig ∨ pr.phase = .serving →
    ∃ i, pr.client.id = some i ∧ r.sessions i = some pr.conn

theorem ClientProc.Genuine.mono {r r' : Registry} {k : ClientId} {pr : ClientProc}
    (h : pr.Genuine r k) (hle : r.Le r') : pr.Genuine r' k := by
  obtain ⟨howner, ⟨built, hbuilt, hlinks⟩, hsession⟩ := h
  refine ⟨howner.mono hle, ⟨built, hle.built _ _ hbuilt, hlinks⟩, fun hp => ?_⟩
  obtain ⟨i, hi, hs⟩ := hsession hp
  exact ⟨i, hi, hle.sessions _ _ hs⟩

end Rslinker
