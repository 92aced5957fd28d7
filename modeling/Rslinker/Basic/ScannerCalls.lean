import Rslinker.Basic.ScannerRuns

set_option autoImplicit false

/-! # Calls with pieces of the input

A state between two calls is as the annotation of its scanner says (`Resting`), and so a call
always returns (`Resting.call`). What it returns is what reading the piece byte by byte gives
(`call_of_reads`, `call_of_fails`). The byte by byte reading knows nothing of pieces, so that the next
module gets from these two lemmas alone that the division of an input does not matter.
-/

namespace Rslinker.Scan

variable {N D K R : Type*} {buf : Bytes}

/-- The state is at a configuration: there is no error, and it has the parts of the configuration. -/
structure State.At (s : State N D K) (c : Config N D K) : Prop where
  error : s.error = 0
  current : s.current = some c.label
  index : s.index = c.index
  span : s.span = c.span
  data : s.data = c.data

/-- Where a run starts. The open span starts again with the piece. -/
def Config.cursor (c : Config N D K) : Cursor N D K :=
  ⟨c.label, 0, c.index, c.span.map fun k => (k, 0), c.data⟩

theorem Config.config_cursor (c : Config N D K) : c.cursor.config = c := by
  have hspan : (c.span.map fun k => (k, 0)).map Prod.fst = c.span := by
    simp [Function.comp_def]
  simp [cursor, Cursor.config, hspan]

theorem pending_cursor (c : Config N D K) :
    pending (R := R) buf c.cursor.span c.cursor.pos = [] := by
  rcases hspan : c.span with _ | k <;> simp [Config.cursor, hspan, piece_self]

theorem execute_at {m : Machine N D K R} {s : State N D K} {c : Config N D K} (hat : s.At c)
    (fuel : Nat) :
    m.execute fuel s buf =
      match m.run buf fuel c.cursor with
      | some (outs, .pause c') =>
          some (⟨some c'.label, c'.index, c'.span.map Prod.fst, 0, s.reason, c'.data⟩,
            outs ++ flush c'.span buf.length, 0)
      | some (outs, .error errno reason resume c') =>
          some (⟨resume, c'.index, c'.span.map Prod.fst, errno, reason, c'.data⟩, outs, errno)
      | some (_, .overrun) | none => none := by
  simp only [Machine.execute, hat.error, ne_eq, not_true_eq_false, if_false, hat.current,
    Option.bind_some, hat.index, hat.span, hat.data]
  rfl

variable [DecidableEq K] {sc : Scanner N D K R}

/-! ## Runs

A run is compared with the moves of `ScannerSteps.lean` visit by visit. The fuel counts visits, of
which there are at most `bound` in front of any byte and at the end of the piece: a visit that
takes nothing leads to a node that settles in fewer of them. -/

/-- How a run from a cursor ends. -/
inductive RunSpec (sc : Scanner N D K R) (buf : Bytes) (c : Cursor N D K) :
    List (Out K R) × Halt N D K → Prop
  | pause {outs : List (Out K R)} {c' : Cursor N D K} {es : List (Event K R)}
      (reads : Reads sc.toMachine c.config (buf.drop c.pos) es c'.config)
      (events_eq : pending buf c.span c.pos ++ es = events buf (outs ++ flush c'.span buf.length))
      (span : c'.span.map Prod.fst = sc.annotation.span c'.label)
      (looks : ¬ sc.annotation.looks c'.label)
      (index : (sc.node c'.label).IndexOk c'.index) : RunSpec sc buf c (outs, .pause c')
  | error {outs : List (Out K R)} {c' : Cursor N D K} {es : List (Event K R)} {errno : Nat}
      {reason : String} {resume : Option N}
      (fails : Fails sc.toMachine c.config (buf.drop c.pos) es c'.config (buf.drop c'.pos) errno
        reason resume)
      (events_eq : pending buf c.span c.pos ++ es =
        events buf outs ++ pending buf c'.span c'.pos)
      (ok : c'.Ok sc buf) (node : sc.node c'.label = .error errno reason resume) :
      RunSpec sc buf c (outs, .error errno reason resume c')

theorem run_goto {fuel : Nat} {c c' : Cursor N D K} {outs : List (Out K R)}
    (h : sc.visit buf c = .goto c' outs) :
    sc.run buf (fuel + 1) c = (sc.run buf fuel c').map fun r => (outs ++ r.1, r.2) := by
  simp only [Machine.run, h]

theorem run_halt {fuel : Nat} {c : Cursor N D K} {e : Halt N D K} (h : sc.visit buf c = .halt e) :
    sc.run buf (fuel + 1) c = some ([], e) := by
  simp only [Machine.run, h]

/-- What has been done before a run goes before what the run does. -/
theorem RunSpec.after {c c' : Cursor N D K} {outs : List (Out K R)}
    {r : List (Out K R) × Halt N D K} (h : Goes sc buf c c' outs) (hr : RunSpec sc buf c' r) :
    RunSpec sc buf c (outs ++ r.1, r.2) := by
  obtain ⟨es, hsteps, hevents⟩ := h.steps
  cases hr with
  | @pause outs' d fs reads events_eq span looks index =>
      refine .pause ⟨hsteps.trans reads.steps, reads.waits⟩ ?_ span looks index
      calc pending buf c.span c.pos ++ (es ++ fs) = pending buf c.span c.pos ++ es ++ fs :=
            (List.append_assoc _ _ _).symm
        _ = events buf outs ++ (pending buf c'.span c'.pos ++ fs) := by
            rw [hevents, List.append_assoc]
        _ = events buf (outs ++ outs' ++ flush d.span buf.length) := by
            rw [events_eq, ← events_append, List.append_assoc]
  | @error outs' d fs errno reason resume fails events_eq ok node =>
      refine .error ⟨hsteps.trans fails.steps, fails.stops⟩ ?_ ok node
      calc pending buf c.span c.pos ++ (es ++ fs) = pending buf c.span c.pos ++ es ++ fs :=
            (List.append_assoc _ _ _).symm
        _ = events buf outs ++ (pending buf c'.span c'.pos ++ fs) := by
            rw [hevents, List.append_assoc]
        _ = events buf (outs ++ outs') ++ pending buf d.span d.pos := by
            rw [events_eq, events_append, List.append_assoc]

/-- **A run does what its moves do**, and does not overrun. -/
theorem run_spec {fuel : Nat} {c : Cursor N D K} {r : List (Out K R) × Halt N D K}
    (hc : c.Ok sc buf) (h : sc.run buf fuel c = some r) : RunSpec sc buf c r := by
  induction fuel generalizing c r with
  | zero => cases h
  | succ fuel ih =>
      cases hvisit : sc.visit buf c with
      | goto c' outs =>
          rw [run_goto hvisit] at h
          obtain ⟨r', hr', rfl⟩ := Option.map_eq_some_iff.mp h
          have hspec := visit_spec hc
          rw [hvisit] at hspec
          cases hspec with
          | goto hgoes => exact RunSpec.after hgoes (ih hgoes.ok hr')
      | halt e =>
          rw [run_halt hvisit] at h
          cases h
          have hspec := visit_spec hc
          rw [hvisit] at hspec
          cases hspec with
          | pause hwaits =>
              obtain ⟨es, hreads, hevents⟩ := hwaits.reads
              exact .pause hreads hevents hwaits.span hwaits.looks hwaits.index
          | @error errno reason resume hnode =>
              have hstops : sc.move c.config (buf.drop c.pos).head? = .stop errno reason resume := by
                simp [Machine.move, Cursor.config, hnode]
              exact .error ⟨.refl _ _, hstops⟩ (by simp) hc hnode

/-- **A run ends** within so many visits for every byte that is left. -/
theorem run_isSome {fuel k : Nat} {c : Cursor N D K} (hc : c.Ok sc buf)
    (hk : sc.settles k c.label) (hfuel : (buf.length - c.pos) * sc.bound + k ≤ fuel) :
    (sc.run buf fuel c).isSome := by
  induction fuel generalizing c k with
  | zero =>
      obtain rfl : k = 0 := by omega
      cases hk
  | succ fuel ih =>
      cases hvisit : sc.visit buf c with
      | halt e => simp [run_halt hvisit]
      | goto c' outs =>
          have hspec := visit_spec hc
          rw [hvisit] at hspec
          cases hspec with
          | goto hgoes =>
              rw [run_goto hvisit, Option.isSome_map]
              have hpos' := hgoes.ok.pos
              obtain ⟨k, rfl⟩ : ∃ j, k = j + 1 := by
                cases k with
                | zero => cases hk
                | succ j => exact ⟨j, rfl⟩
              rcases hgoes.progress with hlt | ⟨heq, htarget⟩
              · -- there is fuel for one byte less
                refine ih hgoes.ok (sc.ends c'.label) ?_
                have hmul : (buf.length - c'.pos + 1) * sc.bound ≤ (buf.length - c.pos) * sc.bound :=
                  Nat.mul_le_mul_right _ (by omega)
                rw [Nat.add_mul, Nat.one_mul] at hmul
                omega
              · refine ih hgoes.ok (List.all_eq_true.mp hk _ htarget) ?_
                rw [heq]
                omega

/-! ## States between two calls

After a call the annotation tells which span is open, since the node is known. After an error it
may not be: such a state is kept, but the next call returns its error at once. Of the bytes of a
span that is open when an error is found nothing is called back, although they have been read
(`Lost`). -/

/-- The state is as the annotation of its node says. After an error it may have no node. -/
structure State.Ok (sc : Scanner N D K R) (s : State N D K) : Prop where
  current : s.error = 0 → s.current.isSome
  span : ∀ l, s.current = some l → s.span = sc.annotation.span l
  looks : ∀ l, s.current = some l → ¬ sc.annotation.looks l
  index : ∀ l, s.current = some l → (sc.node l).IndexOk s.index

theorem State.Ok.at {s : State N D K} (hs : s.Ok sc) (herror : s.error = 0) : ∃ c, s.At c := by
  obtain ⟨l, hl⟩ := Option.isSome_iff_exists.mp (hs.current herror)
  exact ⟨⟨l, s.index, s.span, s.data⟩, herror, hl, rfl, rfl, rfl⟩

theorem State.Ok.cursor {s : State N D K} {c : Config N D K} (hs : s.Ok sc) (hat : s.At c) :
    c.cursor.Ok sc buf := by
  have hspan : c.cursor.span.map Prod.fst = c.span :=
    congrArg Config.span c.config_cursor
  have hzero : ∀ k start, c.cursor.span = some (k, start) → start = 0 := by
    intro k start h
    obtain ⟨k', -, heq⟩ := Option.map_eq_some_iff.mp h
    exact (Prod.ext_iff.mp heq).2.symm
  refine ⟨Nat.zero_le _, .inr ?_, fun k start h => (hzero k start h).le, fun _ => hzero, ?_, ?_⟩
  · rw [hspan, ← hat.span]
    exact hs.span _ hat.current
  · intro h
    exact absurd h (hs.looks _ hat.current)
  · have hindex := hs.index _ hat.current
    rwa [hat.index] at hindex

def Scanner.fuel (sc : Scanner N D K R) (buf : Bytes) : Nat := (buf.length + 1) * sc.bound

theorem run_fuel {s : State N D K} {c : Config N D K} (hs : s.Ok sc) (hat : s.At c) (buf : Bytes) :
    ∃ r, sc.run buf (sc.fuel buf) c.cursor = some r := by
  refine Option.isSome_iff_exists.mp (run_isSome (hs.cursor hat) (sc.ends c.label) ?_)
  rw [Scanner.fuel, Nat.add_mul, Nat.one_mul]
  exact Nat.le_refl _

/-- **A call reads the piece** as it is read byte by byte. -/
theorem execute_of_reads {s : State N D K} {c d : Config N D K} {es : List (Event K R)}
    (hs : s.Ok sc) (hat : s.At c) (h : Reads sc.toMachine c buf es d) :
    ∃ outs, sc.execute (sc.fuel buf) s buf =
        some (⟨some d.label, d.index, d.span, 0, s.reason, d.data⟩, outs, 0) ∧
      events buf outs = es := by
  obtain ⟨r, hr⟩ := run_fuel hs hat buf
  have hspec := run_spec (hs.cursor hat) hr
  cases hspec with
  | @pause outs c' es' reads events_eq =>
      rw [Config.config_cursor] at reads
      obtain ⟨rfl, rfl⟩ := h.unique reads
      refine ⟨outs ++ flush c'.span buf.length, by rw [execute_at hat, hr]; rfl, ?_⟩
      rw [← events_eq, pending_cursor, List.nil_append]
  | error fails =>
      rw [Config.config_cursor] at fails
      exact absurd fails h.not_fails

/-- What an error loses of the events before it: bytes of the span that is open. -/
structure Lost (span : Option K) (lost : List (Event K R)) : Prop where
  none : span = none → lost = []
  bytes : ∀ r, .report r ∉ lost

omit [DecidableEq K] in
theorem lost_pending (buf : Bytes) (span : Option (K × Nat)) (pos : Nat) :
    Lost (R := R) (span.map Prod.fst) (pending buf span pos) := by
  constructor
  · intro hspan
    rw [Option.map_eq_none_iff.mp hspan, pending_none]
  · intro r hmem
    rcases span with _ | ⟨k, start⟩
    · rw [pending_none] at hmem
      cases hmem
    · simp [pending, flush, events, Out.events] at hmem

/-- **A call fails** where reading byte by byte does. What it has of an open span is lost. -/
theorem execute_of_fails {s : State N D K} {c d : Config N D K} {es : List (Event K R)} {y : Bytes}
    {errno : Nat} {reason : String} {resume : Option N} (hs : s.Ok sc) (hat : s.At c)
    (h : Fails sc.toMachine c buf es d y errno reason resume) :
    ∃ outs lost, sc.execute (sc.fuel buf) s buf =
        some (⟨resume, d.index, d.span, errno, reason, d.data⟩, outs, errno) ∧
      es = events buf outs ++ lost ∧ errno ≠ 0 ∧ Lost d.span lost := by
  obtain ⟨r, hr⟩ := run_fuel hs hat buf
  have hspec := run_spec (hs.cursor hat) hr
  cases hspec with
  | pause reads =>
      rw [Config.config_cursor] at reads
      exact absurd h reads.not_fails
  | @error outs c' es' errno' reason' resume' fails events_eq ok node =>
      rw [Config.config_cursor] at fails
      obtain ⟨rfl, rfl, -, rfl, rfl, rfl⟩ := h.unique fails
      refine ⟨outs, pending buf c'.span c'.pos, by rw [execute_at hat, hr]; rfl, ?_, ?_,
        lost_pending buf c'.span c'.pos⟩
      · rw [← events_eq, pending_cursor, List.nil_append]
      · have hfits := sc.fits c'.label
        simp only [node, Node.fits, Bool.and_eq_true, decide_eq_true_eq] at hfits
        exact hfits.1

/-- A call returns, and leaves a state as the annotation says. -/
theorem execute_ok {s : State N D K} (hs : s.Ok sc) (buf : Bytes) :
    ∃ r, sc.execute (sc.fuel buf) s buf = some r ∧ r.1.Ok sc := by
  by_cases herror : s.error = 0
  · obtain ⟨c, hat⟩ := hs.at herror
    obtain ⟨r, hr⟩ := run_fuel hs hat buf
    have hspec := run_spec (hs.cursor hat) hr
    cases hspec with
    | @pause outs c' es reads events_eq span looks index =>
        refine ⟨_, by rw [execute_at hat, hr], fun _ => rfl, ?_, ?_, ?_⟩
        · rintro _ ⟨⟩
          exact span
        · rintro _ ⟨⟩
          exact looks
        · rintro _ ⟨⟩
          exact index
    | @error outs c' es errno reason resume fails events_eq ok node =>
        have hfits := sc.fits c'.label
        simp only [node, Node.fits, Bool.and_eq_true, decide_eq_true_eq] at hfits
        have hresume : ∀ l, resume = some l →
            c'.span.map Prod.fst = sc.annotation.span l ∧ ¬ sc.annotation.looks l := by
          rintro l rfl
          have hspan := ok.span_eq (by rw [node]; rfl)
          have hedge : sc.annotation.span l = sc.annotation.span c'.label ∧
              ¬ sc.annotation.looks l := by simpa using hfits.2
          exact ⟨hspan.trans hedge.1.symm, hedge.2⟩
        have hindex : c'.index = 0 := by simpa [node, Node.IndexOk] using ok.index
        refine ⟨_, by rw [execute_at hat, hr], fun h => absurd h hfits.1, ?_, ?_, ?_⟩
        · intro l hl
          exact (hresume l hl).1
        · intro l hl
          exact (hresume l hl).2
        · intro l hl
          show (sc.node l).IndexOk c'.index
          rw [hindex]
          exact sc.indexOk_zero l
  · exact ⟨(s, [], s.error), by rw [Machine.execute, if_pos herror], hs⟩

/-! ## Calls

`Resting` has the invariant as a field, so that `call` is a total function on it: the state after a
call can be called again, and no lemma about a sequence of calls has to show that a run has ended.
-/

structure Resting (sc : Scanner N D K R) where
  state : State N D K
  ok : state.Ok sc

theorem Resting.execute_isSome (s : Resting sc) (buf : Bytes) :
    (sc.execute (sc.fuel buf) s.state buf).isSome := by
  obtain ⟨r, hr, -⟩ := execute_ok s.ok buf
  rw [hr]
  rfl

theorem Resting.execute_get_ok (s : Resting sc) (buf : Bytes) :
    ((sc.execute (sc.fuel buf) s.state buf).get (s.execute_isSome buf)).1.Ok sc := by
  obtain ⟨r, hr, hok⟩ := execute_ok s.ok buf
  simpa only [hr, Option.get_some] using hok

/-- A call with a piece: the state after it, what is called back, and the error. -/
def Resting.call (s : Resting sc) (buf : Bytes) : Resting sc × List (Out K R) × Nat :=
  let r := (sc.execute (sc.fuel buf) s.state buf).get (s.execute_isSome buf)
  (⟨r.1, s.execute_get_ok buf⟩, r.2)

namespace Resting

variable {s t : Resting sc} {c d : Config N D K} {es : List (Event K R)}

theorem ext {s t : Resting sc} (h : s.state = t.state) : s = t := by
  cases s
  cases t
  cases h
  rfl

theorem call_eq {r : State N D K × List (Out K R) × Nat}
    (h : sc.execute (sc.fuel buf) s.state buf = some r) :
    (s.call buf).1.state = r.1 ∧ (s.call buf).2 = r.2 := by
  simp [call, h]

/-- An error stays. -/
theorem call_error (h : s.state.error ≠ 0) : s.call buf = (s, [], s.state.error) := by
  have hexec : sc.execute (sc.fuel buf) s.state buf = some (s.state, [], s.state.error) := by
    rw [Machine.execute, if_pos h]
  obtain ⟨hstate, hrest⟩ := call_eq hexec
  exact Prod.ext (ext hstate) hrest

theorem call_of_reads (hat : s.state.At c) (h : Reads sc.toMachine c buf es d) :
    (s.call buf).2.2 = 0 ∧ (s.call buf).1.state.At d ∧ events buf (s.call buf).2.1 = es ∧
      (s.call buf).1.state.reason = s.state.reason := by
  obtain ⟨outs, hexec, hevents⟩ := execute_of_reads s.ok hat h
  obtain ⟨hstate, hrest⟩ := call_eq hexec
  rw [hstate, hrest]
  exact ⟨rfl, ⟨rfl, rfl, rfl, rfl, rfl⟩, hevents, rfl⟩

theorem call_of_fails {y : Bytes} {errno : Nat} {reason : String} {resume : Option N}
    (hat : s.state.At c) (h : Fails sc.toMachine c buf es d y errno reason resume) :
    ∃ lost, es = events buf (s.call buf).2.1 ++ lost ∧ (s.call buf).2.2 = errno ∧ errno ≠ 0 ∧
      Lost d.span lost ∧
      (s.call buf).1.state = ⟨resume, d.index, d.span, errno, reason, d.data⟩ := by
  obtain ⟨outs, lost, hexec, hevents, hne, hlost⟩ := execute_of_fails s.ok hat h
  obtain ⟨hstate, hrest⟩ := call_eq hexec
  rw [hstate, hrest]
  exact ⟨lost, hevents, rfl, hne, hlost, rfl⟩

/-- Two states at one configuration are one, up to the reason of a past error. -/
theorem eq_of_at (hs : s.state.At c) (ht : t.state.At c) (hreason : s.state.reason = t.state.reason) :
    s = t := by
  refine ext ?_
  obtain ⟨⟨current, index, span, error, reason, data⟩, hok⟩ := s
  obtain ⟨⟨current', index', span', error', reason', data'⟩, hok'⟩ := t
  obtain ⟨rfl, rfl, rfl, rfl, rfl⟩ := hs
  obtain ⟨rfl, rfl, rfl, rfl, rfl⟩ := ht
  simpa using hreason

end Resting

end Rslinker.Scan
