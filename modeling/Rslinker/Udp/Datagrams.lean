import Rslinker.Udp.Relay

set_option autoImplicit false

/-! # Datagrams through a stream

The stream of a session has no boundaries, and the relay adds none. What comes out is the bytes of
the datagrams, cut at 4096 bytes each, in the pieces that the reads happen to return. So the
datagrams that went in come out exactly when every read returns as many bytes as the datagram that
is next, which a datagram longer than `room` rules out.
-/

namespace Rslinker.Udp

/-- A lane into which the datagrams `sent` have come and whose reader has returned `reads` bytes. -/
structure Lane.Relays (room : Nat) (l : Lane) (sent : List Bytes) (reads : List Nat) : Prop where
  bytes : l.emitted.flatten ++ (l.stream ++ (l.pending ++ (l.queue.map (List.take 4096)).flatten))
    = (sent.map (List.take 4096)).flatten
  lengths : l.emitted.map List.length = reads
  short : ∀ d ∈ l.emitted, d.length ≤ room

namespace Lane.Relays

variable {room n : Nat} {l l' : Lane} {sent : List Bytes} {reads : List Nat}

theorem init (room : Nat) : Lane.init.Relays room [] [] :=
  ⟨rfl, rfl, by simp [Lane.init]⟩

/-- A datagram arrives, cut or not yet cut. -/
theorem push (h : l.Relays room sent reads) {datagram arrived : Bytes}
    (hcut : arrived.take 4096 = datagram.take 4096) :
    (l.push arrived).Relays room (sent ++ [datagram]) reads := by
  refine ⟨?_, h.lengths, h.short⟩
  have hbytes := congrArg (· ++ datagram.take 4096) h.bytes
  simpa [Lane.push, hcut] using hbytes

/-- The loop takes the first datagram of the queue. -/
theorem take (h : l.Relays room sent reads) {data : Bytes} {rest : List Bytes}
    (hqueue : l.queue = data :: rest) (hpending : l.pending = []) :
    { l with queue := rest, pending := data.take 4096 : Lane }.Relays room sent reads := by
  refine ⟨?_, h.lengths, h.short⟩
  have hbytes := h.bytes
  rw [hqueue, hpending] at hbytes
  simpa using hbytes

theorem write (h : l.Relays room sent reads) (hw : l.write n = some l') :
    l'.Relays room sent reads := by
  obtain ⟨-, hw⟩ := Option.ite_none_right_eq_some.mp hw
  cases hw
  refine ⟨?_, h.lengths, h.short⟩
  rw [← h.bytes]
  simp only [List.append_assoc]
  rw [← List.append_assoc (l.pending.take n), List.take_append_drop]

theorem read (h : l.Relays room sent reads) (hr : l.read room n = some l') :
    l'.Relays room sent (reads ++ [n]) := by
  obtain ⟨hn, hr⟩ := Option.ite_none_right_eq_some.mp hr
  cases hr
  have hlen : (l.stream.take n).length = n := by
    rw [List.length_take]
    rcases hn with ⟨-, hle, -⟩ | ⟨rfl, -⟩
    · omega
    · omega
  refine ⟨?_, ?_, ?_⟩
  · -- the bytes go from the stream to the emitted datagrams
    rw [← h.bytes]
    simp only [List.flatten_append, List.flatten_cons, List.flatten_nil, List.append_nil,
      List.append_assoc]
    rw [← List.append_assoc (l.stream.take n), List.take_append_drop]
  · simp [h.lengths, hlen]
  · intro d hd
    rcases List.mem_append.mp hd with hd | hd
    · exact h.short d hd
    · rw [List.mem_singleton.mp hd, hlen]
      rcases hn with ⟨-, -, hroom⟩ | ⟨rfl, -⟩
      · exact hroom
      · exact Nat.zero_le room

/-- A read that fails is answered with an empty datagram. -/
theorem readErr (h : l.Relays room sent reads) :
    { l with emitted := l.emitted ++ [[]] : Lane }.Relays room sent (reads ++ [0]) := by
  refine ⟨by simpa using h.bytes, by simp [h.lengths], ?_⟩
  intro d hd
  rcases List.mem_append.mp hd with hd | hd
  · exact h.short d hd
  · rw [List.mem_singleton.mp hd]
    exact Nat.zero_le _

theorem close (h : l.Relays room sent reads) : l.close.Relays room sent reads :=
  ⟨h.bytes, h.lengths, h.short⟩

/-- The datagrams come out as they went in where the reads have their lengths. -/
theorem emitted_prefix_iff (h : l.Relays room sent reads) (hroom : room ≤ 4096) :
    l.emitted <+: sent ↔ reads <+: sent.map List.length := by
  rw [← h.lengths]
  refine prefix_iff_lengths (fun d hd => (h.short d hd).trans hroom) ?_
  rw [← h.bytes]
  exact List.prefix_append _ _

/-- A datagram longer than `room` does not come out as it went in. -/
theorem length_le_room (h : l.Relays room sent reads) (hpre : l.emitted <+: sent) :
    ∀ d ∈ sent.take l.emitted.length, d.length ≤ room := by
  rw [← List.prefix_iff_eq_take.mp hpre]
  exact h.short

end Lane.Relays

/-! ## Sessions

A session is two lanes, and a step of it is a step of one of them. The inputs of a lane are
functions of the actions, so what comes out is compared with what went in over whole runs, in both
directions at once. -/

/-- The session after the actions `acts`. -/
structure Session.Relays (room : Nat) (s : Session) (acts : List Act) : Prop where
  up : s.up.Relays room (peerSent acts) (clientReads acts)
  down : s.down.Relays room (localSent acts) (serverReads acts)
  /-- What `UdpServer` receives fits its buffer. -/
  received : ∀ d ∈ s.up.queue, d.length ≤ 4096

theorem Session.relays_init (room : Nat) : Session.init.Relays room [] :=
  ⟨.init room, .init room, by simp [Session.init, Lane.init]⟩

section Inputs

variable (acts : List Act) (a : Act)

@[simp] theorem peerSent_append : peerSent (acts ++ [a]) = peerSent acts ++ peerSent [a] :=
  List.filterMap_append

@[simp] theorem localSent_append : localSent (acts ++ [a]) = localSent acts ++ localSent [a] :=
  List.filterMap_append

@[simp] theorem clientReads_append :
    clientReads (acts ++ [a]) = clientReads acts ++ clientReads [a] :=
  List.filterMap_append

@[simp] theorem serverReads_append :
    serverReads (acts ++ [a]) = serverReads acts ++ serverReads [a] :=
  List.filterMap_append

end Inputs

/-- **Every step of a session relays its bytes.** -/
theorem Session.step_relays {room : Nat} {s t : Session} {done : List Act} {a : Act}
    (h : s.Relays room done) (hstep : s.step room a = some t) : t.Relays room (done ++ [a]) := by
  obtain ⟨hup, hdown, hreceived⟩ := h
  -- every action works on one lane; the other lane and its inputs stay as they are
  cases a with
  | peerSend datagram =>
      cases hstep
      -- `UdpServer` has cut the datagram to its buffer
      have hcut : (datagram.take 4096).take 4096 = datagram.take 4096 := by
        rw [List.take_take, Nat.min_self]
      refine ⟨?_, by simpa [localSent, serverReads] using hdown, ?_⟩
      · simpa [peerSent, clientReads] using hup.push hcut
      · intro d hd
        rcases List.mem_append.mp hd with hd | hd
        · exact hreceived d hd
        · rw [List.mem_singleton.mp hd]
          exact List.length_take_le _ _
  | localSend datagram =>
      cases hstep
      refine ⟨by simpa [peerSent, clientReads] using hup, ?_, hreceived⟩
      simpa [localSent, serverReads] using hdown.push rfl
  | serverTake =>
      rcases hq : s.up.queue with _ | ⟨data, rest⟩
      · simp [step, hq] at hstep
      · simp only [step, hq] at hstep
        obtain ⟨⟨-, hpending⟩, hstep⟩ := Option.ite_none_right_eq_some.mp hstep
        cases hstep
        -- what was cut on arrival goes to the stream as it is
        have hlen : data.length ≤ 4096 := hreceived data (by simp [hq])
        have htake := hup.take hq hpending
        rw [List.take_of_length_le hlen] at htake
        refine ⟨by simpa [peerSent, clientReads] using htake,
          by simpa [localSent, serverReads] using hdown, ?_⟩
        exact fun d hd => hreceived d (by simp [hq, show d ∈ rest from hd])
  | serverWrite n =>
      obtain ⟨-, hstep⟩ := Option.ite_none_right_eq_some.mp hstep
      obtain ⟨up, hwrite, rfl⟩ := Option.map_eq_some_iff.mp hstep
      refine ⟨by simpa [peerSent, clientReads] using hup.write hwrite,
        by simpa [localSent, serverReads] using hdown, ?_⟩
      obtain ⟨-, hwrite⟩ := Option.ite_none_right_eq_some.mp hwrite
      cases hwrite
      exact hreceived
  | serverRead n =>
      obtain ⟨-, hstep⟩ := Option.ite_none_right_eq_some.mp hstep
      obtain ⟨down, hread, rfl⟩ := Option.map_eq_some_iff.mp hstep
      exact ⟨by simpa [peerSent, clientReads] using hup,
        by simpa [localSent, serverReads] using hdown.read hread, hreceived⟩
  | serverStop =>
      cases hstep
      exact ⟨by simpa [peerSent, clientReads] using hup.close,
        by simpa [localSent, serverReads] using hdown, hreceived⟩
  | clientTake =>
      rcases hq : s.down.queue with _ | ⟨datagram, rest⟩
      · simp [step, hq] at hstep
      · simp only [step, hq] at hstep
        obtain ⟨⟨-, hpending⟩, hstep⟩ := Option.ite_none_right_eq_some.mp hstep
        cases hstep
        exact ⟨by simpa [peerSent, clientReads] using hup,
          by simpa [localSent, serverReads] using hdown.take hq hpending, hreceived⟩
  | clientWrite n =>
      obtain ⟨-, hstep⟩ := Option.ite_none_right_eq_some.mp hstep
      obtain ⟨down, hwrite, rfl⟩ := Option.map_eq_some_iff.mp hstep
      exact ⟨by simpa [peerSent, clientReads] using hup,
        by simpa [localSent, serverReads] using hdown.write hwrite, hreceived⟩
  | clientRead n =>
      obtain ⟨-, hstep⟩ := Option.ite_none_right_eq_some.mp hstep
      obtain ⟨up, hread, rfl⟩ := Option.map_eq_some_iff.mp hstep
      refine ⟨by simpa [peerSent, clientReads] using hup.read hread,
        by simpa [localSent, serverReads] using hdown, ?_⟩
      obtain ⟨-, hread⟩ := Option.ite_none_right_eq_some.mp hread
      cases hread
      exact hreceived
  | clientReadErr =>
      obtain ⟨-, hstep⟩ := Option.ite_none_right_eq_some.mp hstep
      cases hstep
      exact ⟨by simpa [peerSent, clientReads] using hup.readErr,
        by simpa [localSent, serverReads] using hdown, hreceived⟩
  | clientStop =>
      cases hstep
      exact ⟨by simpa [peerSent, clientReads] using hup,
        by simpa [localSent, serverReads] using hdown.close, hreceived⟩

theorem Session.run_relays {room : Nat} {s : Session} {acts : List Act}
    (h : run (Session.step room) .init acts = some s) : s.Relays room acts :=
  run_invariant_history (fun _ _ _ _ hs hstep => Session.step_relays hs hstep)
    (Session.relays_init room) h

/-- **What a UDP link preserves.** In every run of a session, in both directions: the datagrams sent
at one end are a prefix of those that came in at the other exactly when the lengths of the reads
are a prefix of the lengths of these datagrams. -/
theorem datagrams_preserved_iff {room : Nat} (hroom : room ≤ 4096) {acts : List Act} {s : Session}
    (h : run (Session.step room) .init acts = some s) :
    (s.up.emitted <+: peerSent acts ↔
        clientReads acts <+: (peerSent acts).map List.length) ∧
      (s.down.emitted <+: localSent acts ↔
        serverReads acts <+: (localSent acts).map List.length) :=
  ⟨(Session.run_relays h).up.emitted_prefix_iff hroom,
    (Session.run_relays h).down.emitted_prefix_iff hroom⟩

/-- **What a link rules out.** Where all that came out is what went in, none of it was longer than
one read. -/
theorem emitted_length_le {room : Nat} {acts : List Act} {s : Session}
    (h : run (Session.step room) .init acts = some s) (hpre : s.up.emitted <+: peerSent acts) :
    ∀ d ∈ (peerSent acts).take s.up.emitted.length, d.length ≤ room :=
  (Session.run_relays h).up.length_le_room hpre

/-- Two datagrams that one read returns together, and one that needs two reads. -/
theorem not_datagrams_preserved :
    (¬ ∀ (acts : List Act) (s : Session), run (Session.step 64) .init acts = some s →
        s.up.emitted <+: peerSent acts) ∧
      ¬ ∀ (acts : List Act) (s : Session), run (Session.step 64) .init acts = some s →
        s.down.emitted <+: localSent acts := by
  constructor
  · intro hall
    have h := hall [.peerSend [1], .peerSend [2], .serverTake, .serverWrite 1, .serverTake,
      .serverWrite 1, .clientRead 2] _ rfl
    exact absurd h (by decide)
  · intro hall
    have h := hall [.localSend (List.replicate 65 0), .clientTake, .clientWrite 65, .serverRead 64] _ rfl
    exact absurd h (by decide)

/-- The rule at a session in which every datagram is read before the next one is written. -/
theorem datagrams_preserved_quiet : ∃ s : Session,
    run (Session.step 64) .init [.peerSend [1], .serverTake, .serverWrite 1, .clientRead 1,
      .peerSend [2, 3], .serverTake, .serverWrite 2, .clientRead 2] = some s ∧
    s.up.emitted <+: [[1], [2, 3]] := by
  obtain ⟨s, hrun⟩ : ∃ s : Session,
      run (Session.step 64) .init [.peerSend [1], .serverTake, .serverWrite 1, .clientRead 1,
        .peerSend [2, 3], .serverTake, .serverWrite 2, .clientRead 2] = some s := ⟨_, rfl⟩
  exact ⟨s, hrun, (datagrams_preserved_iff (by decide) hrun).1.mpr (by decide)⟩

end Rslinker.Udp
