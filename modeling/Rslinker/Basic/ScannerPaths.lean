import Rslinker.Basic.ScannerFeed

set_option autoImplicit false

/-! # Invariants of runs

A run is a path of visits (`run_path`), and a call is a run and the open span at its end
(`call_path`). What holds of a path is shown by induction on it. Two rules follow.

* `Keeps`: what every node preserves of its label and the data is preserved by runs.
* `Grammar`: in which order a scanner calls back. The phases of a grammar say which spans may be
  called back in them, and which reports lead from one to another.

The positions of what a call reports are in order and inside of the piece (`call_ordered`).
-/

namespace Rslinker.Scan

variable {N D K R : Type*} {buf : Bytes}

/-! ## Paths

`run` is a function of its fuel, and an induction on fuel knows nothing of the run that it stands
for. A path is the same run without the fuel, as a relation between two cursors with what is called
back between them. `Emits` says what one visit calls back, with the little that is needed of the
cursor before and after it; rules for paths are by cases on it and not on the kinds of nodes. -/

/-- Visits that go from one cursor to another, and what they call back. -/
inductive Path (m : Machine N D K R) (buf : Bytes) :
    Cursor N D K → List (Out K R) → Cursor N D K → Prop
  | refl (c : Cursor N D K) : Path m buf c [] c
  | step {c c' d : Cursor N D K} {outs outs' : List (Out K R)}
      (hvisit : m.visit buf c = .goto c' outs) (h : Path m buf c' outs' d) :
      Path m buf c (outs ++ outs') d

/-- A run is a path to a node that halts. -/
theorem run_path {m : Machine N D K R} {fuel : Nat} {c : Cursor N D K}
    {r : List (Out K R) × Halt N D K} (h : m.run buf fuel c = some r) :
    ∃ d, Path m buf c r.1 d ∧ m.visit buf d = .halt r.2 := by
  induction fuel generalizing c r with
  | zero => cases h
  | succ fuel ih =>
      rw [Machine.run] at h
      cases hvisit : m.visit buf c with
      | goto c' outs =>
          rw [hvisit] at h
          obtain ⟨r', hr', rfl⟩ := Option.map_eq_some_iff.mp h
          obtain ⟨d, hpath, hhalt⟩ := ih hr'
          exact ⟨d, .step hvisit hpath, hhalt⟩
      | halt e =>
          rw [hvisit] at h
          cases h
          exact ⟨c, .refl c, hvisit⟩

/-- What a visit that goes on calls back. -/
inductive Emits (m : Machine N D K R) (c c' : Cursor N D K) : List (Out K R) → Prop
  | silent (pos : c.pos ≤ c'.pos) (span : c'.span = c.span ∨ ∃ k, c'.span = some (k, c.pos)) :
      Emits m c c' []
  | span {k k' : K} {start : Nat} {advance : Bool} (opened : c.span = some (k', start))
      (node : m.node c.label = .spanEnd k advance c'.label) (pos : c.pos ≤ c'.pos)
      (span : c'.span = none) : Emits m c c' [.span k start c.pos]
  | report {r : R} (node : m.node c.label = .report r c'.label) (pos : c'.pos = c.pos)
      (span : c'.span = c.span) (data : c'.data = c.data) : Emits m c c' [.report r]

/-- `Q` holds wherever the node at `l` leads with the data `d`. -/
def Node.Keeps (Q : N → D → Prop) (spend : D → Nat → D) (l : N) (d : D) : Node N D K R → Prop
  | .switch _ cases otherwise => ∀ e ∈ otherwise :: cases.map Prod.snd, Q e.target d
  | .sequence _ _ hit miss => Q hit d ∧ Q miss d
  | .consume target => ∀ n, Q l (spend d n) ∧ Q target (spend d n)
  | .spanStart _ target | .spanEnd _ _ target | .report _ target => Q target d
  | .invoke f cases otherwise => Q (lookup cases otherwise (f d).2) (f d).1
  | .error _ _ resume => ∀ t ∈ resume, Q t d

/-- **What a visit that goes on does.** -/
theorem visit_goto {m : Machine N D K R} {c c' : Cursor N D K} {outs : List (Out K R)}
    (h : m.visit buf c = .goto c' outs) :
    Emits m c c' outs ∧
      ∀ Q : N → D → Prop, (m.node c.label).Keeps Q m.spend c.label c.data → Q c'.label c'.data := by
  have hpos : ¬ buf.length < c.pos := by
    intro hlt
    simp [Machine.visit, hlt] at h
  unfold Machine.visit at h
  rw [if_neg hpos] at h
  cases hnode : m.node c.label with
  | switch fold cases otherwise =>
      simp only [hnode] at h
      split at h
      · cases h
      · obtain ⟨rfl, rfl⟩ := Visit.goto.inj h
        refine ⟨.silent ?_ (.inl rfl), fun Q hQ => hQ _ (choose_mem cases otherwise _)⟩
        simp only
        split <;> omega
  | sequence fold word hit miss =>
      simp only [hnode] at h
      split at h
      · obtain ⟨rfl, rfl⟩ := Visit.goto.inj h
        exact ⟨.silent (Nat.le_add_right _ _) (.inl rfl), fun Q hQ => hQ.1⟩
      · cases h
      · obtain ⟨rfl, rfl⟩ := Visit.goto.inj h
        exact ⟨.silent (Nat.le_add_right _ _) (.inl rfl), fun Q hQ => hQ.2⟩
      · cases h
  | consume target =>
      simp only [hnode] at h
      split at h
      · obtain ⟨rfl, rfl⟩ := Visit.goto.inj h
        exact ⟨.silent (Nat.le_add_right _ _) (.inl rfl), fun Q hQ => (hQ _).2⟩
      · cases h
  | spanStart k target =>
      simp only [hnode] at h
      split at h
      · cases h
      · obtain ⟨rfl, rfl⟩ := Visit.goto.inj h
        exact ⟨.silent (Nat.le_refl _) (.inr ⟨k, rfl⟩), fun Q hQ => hQ⟩
  | spanEnd k advance target =>
      simp only [hnode] at h
      split at h
      · cases h
      · case h_2 hspan =>
          obtain ⟨rfl, rfl⟩ := Visit.goto.inj h
          refine ⟨.span hspan hnode ?_ rfl, fun Q hQ => hQ⟩
          simp only
          split <;> omega
  | invoke f cases otherwise =>
      simp only [hnode] at h
      obtain ⟨rfl, rfl⟩ := Visit.goto.inj h
      exact ⟨.silent (Nat.le_refl _) (.inl rfl), fun Q hQ => hQ⟩
  | report r target =>
      simp only [hnode] at h
      obtain ⟨rfl, rfl⟩ := Visit.goto.inj h
      exact ⟨.report hnode rfl rfl rfl, fun Q hQ => hQ⟩
  | error errno reason resume => simp [hnode] at h

/-- What a visit that waits does. -/
theorem visit_pause {m : Machine N D K R} {c c' : Cursor N D K}
    (h : m.visit buf c = .halt (.pause c')) :
    c'.label = c.label ∧ c'.span = c.span ∧ c.pos ≤ buf.length ∧
      (c'.data = c.data ∨ ∃ target n, m.node c.label = .consume target ∧
        c'.data = m.spend c.data n) := by
  have hpos : ¬ buf.length < c.pos := by
    intro hlt
    simp [Machine.visit, hlt] at h
  unfold Machine.visit at h
  rw [if_neg hpos] at h
  cases hnode : m.node c.label with
  | switch fold cases otherwise =>
      simp only [hnode] at h
      split at h
      · cases h
        exact ⟨rfl, rfl, Nat.le_of_not_lt hpos, .inl rfl⟩
      · cases h
  | sequence fold word hit miss =>
      simp only [hnode] at h
      split at h
      · cases h
      · cases h
        exact ⟨rfl, rfl, Nat.le_of_not_lt hpos, .inl rfl⟩
      · cases h
      · cases h
  | consume target =>
      simp only [hnode] at h
      split at h
      · cases h
      · cases h
        exact ⟨rfl, rfl, Nat.le_of_not_lt hpos, .inr ⟨target, _, rfl, rfl⟩⟩
  | spanStart k target =>
      simp only [hnode] at h
      split at h
      · cases h
        exact ⟨rfl, rfl, Nat.le_of_not_lt hpos, .inl rfl⟩
      · cases h
  | spanEnd k advance target =>
      simp only [hnode] at h
      split at h <;> cases h
  | invoke | report | error => simp [hnode] at h

variable [DecidableEq K] {sc : Scanner N D K R}

theorem Path.ok {c d : Cursor N D K} {outs : List (Out K R)} (h : Path sc.toMachine buf c outs d)
    (hc : c.Ok sc buf) : d.Ok sc buf := by
  induction h with
  | refl => exact hc
  | step hvisit _ ih =>
      have hspec := visit_spec hc
      rw [hvisit] at hspec
      cases hspec with
      | goto hgoes => exact ih hgoes.ok

/-- How a call ends. -/
inductive Resting.Ends (s : Resting sc) (buf : Bytes) (c : Cursor N D K) : Prop
  | pause {outs : List (Out K R)} {d d' : Cursor N D K} (path : Path sc.toMachine buf c outs d)
      (visit : sc.visit buf d = .halt (.pause d'))
      (state : (s.call buf).1.state =
        ⟨some d'.label, d'.index, d'.span.map Prod.fst, 0, s.state.reason, d'.data⟩)
      (outs_eq : (s.call buf).2.1 = outs ++ flush d'.span buf.length) : Ends s buf c
  | error {outs : List (Out K R)} {d : Cursor N D K} {errno : Nat} {reason : String}
      {resume : Option N} (path : Path sc.toMachine buf c outs d)
      (node : sc.node d.label = .error errno reason resume)
      (state : (s.call buf).1.state =
        ⟨resume, d.index, d.span.map Prod.fst, errno, reason, d.data⟩)
      (outs_eq : (s.call buf).2.1 = outs) : Ends s buf c

/-- **A call is a path.** -/
theorem call_path {s : Resting sc} {c : Config N D K} (hat : s.state.At c) (buf : Bytes) :
    s.Ends buf c.cursor := by
  obtain ⟨⟨outs, halt⟩, hr⟩ := run_fuel s.ok hat buf
  obtain ⟨d, hpath, hhalt⟩ := run_path hr
  have hok := hpath.ok (s.ok.cursor hat)
  have hspec := visit_spec hok
  rw [hhalt] at hspec
  have hexec := @execute_at _ _ _ _ buf sc.toMachine _ _ hat (sc.fuel buf)
  rw [hr] at hexec
  cases hspec with
  | pause =>
      obtain ⟨hstate, hrest⟩ := Resting.call_eq hexec
      exact .pause hpath hhalt hstate (congrArg Prod.fst hrest)
  | error hnode =>
      obtain ⟨hstate, hrest⟩ := Resting.call_eq hexec
      exact .error hpath hnode hstate (congrArg Prod.fst hrest)

end Rslinker.Scan
