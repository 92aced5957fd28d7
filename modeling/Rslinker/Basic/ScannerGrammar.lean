import Rslinker.Basic.ScannerPaths

set_option autoImplicit false

/-! # What scanners call back

The positions that a call reports are in order and inside of the piece (`call_ordered`). A grammar
says in which order spans and reports are called back: its phases tell which spans may be called
back in them, and which reports lead from one to another. When the nodes of a scanner have phases
(`Phases`), all that it calls back for one piece after the other is accepted (`parse_accepts`).

A node alone does not tell the phase, since the same nodes may serve two purposes; the data decide
between them. So the phase is a function of the node and of a view of the data, and an invariant of
the data may be used to exclude what cannot happen.
-/

namespace Rslinker.Scan

variable {N D K R P : Type*} {buf : Bytes}

/-! ## Positions

A pointer into the piece that is called back must lie in it, and the two ends of a span must not be
in the wrong order. Both follow from the cursor, which only moves on: what is still to be called
back begins at the start of the open span, or at the cursor when there is none. -/

/-- The spans are one after the other between two positions. -/
inductive Ordered : Nat → List (Out K R) → Nat → Prop
  | nil {lo hi : Nat} (h : lo ≤ hi) : Ordered lo [] hi
  | span {lo start stop hi : Nat} {k : K} {outs : List (Out K R)} (hlo : lo ≤ start)
      (h : start ≤ stop) (rest : Ordered stop outs hi) :
      Ordered lo (.span k start stop :: outs) hi
  | report {lo hi : Nat} {r : R} {outs : List (Out K R)} (rest : Ordered lo outs hi) :
      Ordered lo (.report r :: outs) hi

namespace Ordered

variable {lo mid hi : Nat} {outs outs' : List (Out K R)}

theorem le (h : Ordered lo outs hi) : lo ≤ hi := by
  induction h with
  | nil h => exact h
  | span hlo h _ ih => exact Nat.le_trans hlo (Nat.le_trans h ih)
  | report _ ih => exact ih

theorem of_le {lo' : Nat} (h : Ordered lo outs hi) (hle : lo' ≤ lo) : Ordered lo' outs hi := by
  induction h with
  | nil h => exact .nil (Nat.le_trans hle h)
  | span hlo h rest => exact .span (Nat.le_trans hle hlo) h rest
  | report _ ih => exact .report (ih hle)

theorem append (h : Ordered lo outs mid) (h' : Ordered mid outs' hi) :
    Ordered lo (outs ++ outs') hi := by
  induction h with
  | nil hle => exact h'.of_le hle
  | span hlo hspan _ ih => exact .span hlo hspan (ih h')
  | report _ ih => exact .report (ih h')

/-- Every span lies between the two positions. -/
theorem bounds (h : Ordered lo outs hi) {k : K} {start stop : Nat}
    (hmem : .span k start stop ∈ outs) : lo ≤ start ∧ start ≤ stop ∧ stop ≤ hi := by
  induction h with
  | nil => cases hmem
  | span hlo hspan rest ih =>
      rcases List.mem_cons.mp hmem with heq | htail
      · cases heq
        exact ⟨hlo, hspan, rest.le⟩
      · obtain ⟨hstart, hstop⟩ := ih htail
        exact ⟨Nat.le_trans hlo (Nat.le_trans hspan hstart), hstop⟩
  | report _ ih => exact ih (by simpa using hmem)

end Ordered

/-- Where the bytes begin that are still to be called back. -/
def Cursor.from (c : Cursor N D K) : Nat := (c.span.map Prod.snd).getD c.pos

/-! ## Grammars

A grammar is a finite automaton over the calls, with the data of the scanner left out. It is
written down as what a user of the scanner may rely on, and the scanner is checked against it. -/

structure Grammar (P K R : Type*) where
  step : P → R → P → Prop
  spans : P → K → Prop

/-- The calls lead from one phase to another. -/
inductive Grammar.Accepts (g : Grammar P K R) : P → List (Call K R) → P → Prop
  | nil (p : P) : Accepts g p [] p
  | span {p q : P} {k : K} {bytes : Bytes} {calls : List (Call K R)} (hspan : g.spans p k)
      (h : Accepts g p calls q) : Accepts g p (.span k bytes :: calls) q
  | report {p p' q : P} {r : R} {calls : List (Call K R)} (hstep : g.step p r p')
      (h : Accepts g p' calls q) : Accepts g p (.report r :: calls) q

namespace Grammar.Accepts

variable {g : Grammar P K R} {p q r : P} {calls calls' : List (Call K R)}

theorem append (h : g.Accepts p calls q) (h' : g.Accepts q calls' r) :
    g.Accepts p (calls ++ calls') r := by
  induction h with
  | nil => exact h'
  | span hspan _ ih => exact .span hspan (ih h')
  | report hstep _ ih => exact .report hstep (ih h')

/-- Between two calls there is a phase. -/
theorem split (h : g.Accepts p (calls ++ calls') r) :
    ∃ q, g.Accepts p calls q ∧ g.Accepts q calls' r := by
  induction calls generalizing p with
  | nil => exact ⟨p, .nil p, h⟩
  | cons call calls ih =>
      cases h with
      | span hspan h =>
          obtain ⟨q, hfront, hback⟩ := ih h
          exact ⟨q, .span hspan hfront, hback⟩
      | report hstep h =>
          obtain ⟨q, hfront, hback⟩ := ih h
          exact ⟨q, .report hstep hfront, hback⟩

end Grammar.Accepts

/-! ## What calls report

The phase of a node is a function of the node and of what `view` shows of the data, since a node
may be reached in more than one phase. Only what calls back may change the phase, and a node that
calls nothing back must stay in the part of the graph it belongs to (`Node.staysIn`). -/

variable [DecidableEq K] {sc : Scanner N D K R}

theorem Cursor.Ok.from_le {c : Cursor N D K} (hc : c.Ok sc buf) : c.from ≤ c.pos := by
  rcases hspan : c.span with _ | ⟨k, start⟩
  · simp [Cursor.from, hspan]
  · simpa [Cursor.from, hspan] using hc.start k start hspan

theorem Emits.ordered {c c' : Cursor N D K} {outs : List (Out K R)} (hc : c.Ok sc buf)
    (h : Emits sc.toMachine c c' outs) : Ordered c.from outs c'.from := by
  cases h with
  | silent pos span =>
      refine .nil ?_
      rcases span with heq | ⟨k, heq⟩
      · rcases hspan : c.span with _ | ⟨k, start⟩
        · simpa [Cursor.from, heq, hspan] using pos
        · simp [Cursor.from, heq, hspan]
      · simpa [Cursor.from, heq] using hc.from_le
  | span opened _ pos span =>
      have hfrom : c'.from = c'.pos := by simp [Cursor.from, span]
      rw [hfrom]
      exact .span (by simp [Cursor.from, opened]) (hc.start _ _ opened) (.nil pos)
  | report _ pos span => exact .report (.nil (by simp [Cursor.from, span, pos]))

theorem Path.ordered {c d : Cursor N D K} {outs : List (Out K R)} (hc : c.Ok sc buf)
    (h : Path sc.toMachine buf c outs d) : Ordered c.from outs d.from := by
  induction h with
  | refl c => exact .nil (Nat.le_refl _)
  | step hvisit hpath ih =>
      have hok := (Path.step hvisit (.refl _)).ok hc
      exact ((visit_goto hvisit).1.ordered hc).append (ih hok)

/-- **What a call reports is in order** and inside of the piece. -/
theorem call_ordered (s : Resting sc) (buf : Bytes) : Ordered 0 (s.call buf).2.1 buf.length := by
  by_cases herror : s.state.error = 0
  · obtain ⟨c, hat⟩ := s.ok.at herror
    have hc : c.cursor.Ok sc buf := s.ok.cursor hat
    cases call_path hat buf with
    | @pause outs d d' path visit _ outs_eq =>
        obtain ⟨-, hspan, -⟩ := visit_pause visit
        have hd := path.ok hc
        have hflush : Ordered d.from (flush (R := R) d'.span buf.length) buf.length := by
          rw [hspan]
          rcases hopen : d.span with _ | ⟨k, start⟩
          · exact .nil (Nat.le_trans hd.from_le hd.pos)
          · have hstart := hd.start k start hopen
            exact .span (by simp [Cursor.from, hopen]) (Nat.le_trans hstart hd.pos)
              (.nil (Nat.le_refl _))
        rw [outs_eq]
        exact ((path.ordered hc).append hflush).of_le (Nat.zero_le _)
    | error path _ _ outs_eq =>
        have hd := path.ok hc
        rw [outs_eq]
        have hend : Ordered (K := K) (R := R) _ [] buf.length :=
          .nil (Nat.le_trans hd.from_le hd.pos)
        have hall := (path.ordered hc).append hend
        rw [List.append_nil] at hall
        exact hall.of_le (Nat.zero_le _)
  · rw [Resting.call_error herror]
    exact .nil (Nat.zero_le _)

/-- All nodes where this one may lead without a report are in the part `a`. -/
def Node.staysIn {A : Type*} [DecidableEq A] (part : N → A) (a : A) : Node N D K R → Bool
  | .switch _ cases otherwise => (otherwise :: cases.map Prod.snd).all fun e => part e.target = a
  | .sequence _ _ hit miss => decide (part hit = a) && decide (part miss = a)
  | .consume target | .spanStart _ target | .spanEnd _ _ target => part target = a
  | .invoke _ cases otherwise => (otherwise :: cases.map Prod.snd).all fun t => part t = a
  | .report _ _ => false
  | .error _ _ resume => resume.all fun t => part t = a

/-- The node does not change what `view` shows of the data. -/
def Node.Frames {V : Type*} (view : D → V) (spend : D → Nat → D) : Node N D K R → Prop
  | .invoke f _ _ => ∀ d, view (f d).1 = view d
  | .consume _ => ∀ d n, view (spend d n) = view d
  | _ => True

omit [DecidableEq K] in
theorem Node.keeps_of_staysIn {A V : Type*} [DecidableEq A] {part : N → A} {view : D → V}
    {spend : D → Nat → D} {l : N} {d : D} {Q : N → D → Prop} {node : Node N D K R}
    (hparts : node.staysIn part (part l)) (hframes : node.Frames view spend)
    (hQ : ∀ t d', part t = part l → view d' = view d → Q t d') : node.Keeps Q spend l d := by
  cases node with
  | switch fold cases otherwise =>
      intro e he
      exact hQ _ _ (by simpa using List.all_eq_true.mp hparts e he) rfl
  | sequence fold word hit miss =>
      simp only [staysIn, Bool.and_eq_true, decide_eq_true_eq] at hparts
      exact ⟨hQ _ _ hparts.1 rfl, hQ _ _ hparts.2 rfl⟩
  | consume target =>
      intro n
      exact ⟨hQ _ _ rfl (hframes d n), hQ _ _ (by simpa [staysIn] using hparts) (hframes d n)⟩
  | spanStart | spanEnd => exact hQ _ _ (by simpa [staysIn] using hparts) rfl
  | invoke f cases otherwise =>
      have htarget := List.all_eq_true.mp hparts _ (lookup_mem cases otherwise (f d).2)
      exact hQ _ _ (by simpa using htarget) (hframes d)
  | report => cases hparts
  | error errno reason resume =>
      rintro t rfl
      exact hQ _ _ (by simpa [staysIn] using hparts) rfl

/-- What a node does is in the phase of the node, where the data are as `inv` says. -/
def Grammar.Fits (g : Grammar P K R) (phase : N → D → P) (inv : N → D → Prop)
    (spend : D → Nat → D) (l : N) (d : D) : Node N D K R → Prop
  | .report r target => inv target d ∧ g.step (phase l d) r (phase target d)
  | node => node.Keeps (fun t d' => inv t d' ∧ phase t d' = phase l d) spend l d

/-- Phases for the nodes of a scanner. -/
structure Phases (g : Grammar P K R) (sc : Scanner N D K R) where
  phase : N → D → P
  inv : N → D → Prop
  node_ok : ∀ l d, inv l d → g.Fits phase inv sc.spend l d (sc.node l)
  span_ok : ∀ l d k, inv l d → sc.annotation.span l = some k → g.spans (phase l d) k

section Phases

variable {g : Grammar P K R} (ph : Phases g sc)

/-- The state is in a phase. A state that has failed for good is in any. -/
def Resting.InPhase (s : Resting sc) (p : P) : Prop :=
  ∀ l, s.state.current = some l → ph.inv l s.state.data ∧ ph.phase l s.state.data = p

variable {ph}

theorem Emits.accepts {c c' : Cursor N D K} {outs : List (Out K R)} (hc : c.Ok sc buf)
    (hinv : ph.inv c.label c.data) (hvisit : sc.visit buf c = .goto c' outs) :
    ph.inv c'.label c'.data ∧
      g.Accepts (ph.phase c.label c.data) (outs.map (Out.call buf)) (ph.phase c'.label c'.data) := by
  obtain ⟨hemits, hkeeps⟩ := visit_goto hvisit
  have hok := ph.node_ok _ _ hinv
  by_cases hreport : ∃ r t, sc.node c.label = .report r t
  · -- a report leads to its target
    obtain ⟨r, t, hnode⟩ := hreport
    rw [hnode] at hok
    have hpos : ¬ buf.length < c.pos := Nat.not_lt.mpr hc.pos
    simp only [Machine.visit, hnode, hpos, if_false, Visit.goto.injEq] at hvisit
    obtain ⟨rfl, rfl⟩ := hvisit
    exact ⟨hok.1, .report hok.2 (.nil _)⟩
  · have hnode : g.Fits ph.phase ph.inv sc.spend c.label c.data (sc.node c.label) =
        (sc.node c.label).Keeps
          (fun t d => ph.inv t d ∧ ph.phase t d = ph.phase c.label c.data) sc.spend c.label c.data := by
      unfold Grammar.Fits
      split
      · case h_1 r t h => exact absurd ⟨r, t, h⟩ hreport
      · rfl
    rw [hnode] at hok
    obtain ⟨hinv', hphase⟩ := hkeeps _ hok
    refine ⟨hinv', ?_⟩
    rw [hphase]
    cases hemits with
    | silent => exact .nil _
    | @span k k' start advance opened node =>
        have hfits := sc.fits c.label
        simp only [node, Node.fits, Bool.and_eq_true, decide_eq_true_eq] at hfits
        exact .span (ph.span_ok _ _ k hinv hfits.1.1.1) (.nil _)
    | report node => exact absurd ⟨_, _, node⟩ hreport

theorem Path.accepts {c d : Cursor N D K} {outs : List (Out K R)} (hc : c.Ok sc buf)
    (hinv : ph.inv c.label c.data) (h : Path sc.toMachine buf c outs d) :
    ph.inv d.label d.data ∧
      g.Accepts (ph.phase c.label c.data) (outs.map (Out.call buf)) (ph.phase d.label d.data) := by
  induction h with
  | refl c => exact ⟨hinv, .nil _⟩
  | step hvisit hpath ih =>
      have hok := (Path.step hvisit (.refl _)).ok hc
      obtain ⟨hinv', haccepts⟩ := Emits.accepts hc hinv hvisit
      obtain ⟨hinv'', haccepts'⟩ := ih hok hinv'
      rw [List.map_append]
      exact ⟨hinv'', haccepts.append haccepts'⟩

/-- **A call is accepted.** -/
theorem call_accepts {s : Resting sc} {p : P} (hs : s.InPhase ph p) (buf : Bytes) :
    ∃ q, g.Accepts p ((s.call buf).2.1.map (Out.call buf)) q ∧ (s.call buf).1.InPhase ph q := by
  by_cases herror : s.state.error = 0
  · obtain ⟨c, hat⟩ := s.ok.at herror
    have hc : c.cursor.Ok sc buf := s.ok.cursor hat
    obtain ⟨hinv, rfl⟩ := hs c.label hat.current
    rw [hat.data] at hinv ⊢
    cases call_path hat buf with
    | @pause outs d d' path visit state outs_eq =>
        obtain ⟨hlabel, hspan, -, hdata⟩ := visit_pause visit
        have hd := path.ok hc
        obtain ⟨hinvd, haccepts⟩ := path.accepts hc hinv
        have hhere : ph.inv d'.label d'.data ∧
            ph.phase d'.label d'.data = ph.phase d.label d.data := by
          rw [hlabel]
          rcases hdata with hdata | ⟨target, n, hnode, hdata⟩
          · rw [hdata]
            exact ⟨hinvd, rfl⟩
          · have hok := ph.node_ok _ _ hinvd
            rw [hnode] at hok
            rw [hdata]
            exact (hok n).1
        refine ⟨ph.phase d.label d.data, ?_, fun l hl => ?_⟩
        · rw [outs_eq, List.map_append]
          refine haccepts.append ?_
          rw [hspan]
          rcases hopen : d.span with _ | ⟨k, start⟩
          · exact .nil _
          · have hwaits := visit_spec hd
            rw [visit] at hwaits
            cases hwaits with
            | pause hwaits =>
                have hk : sc.annotation.span d.label = some k := by
                  rw [← hlabel, ← hwaits.span, hspan, hopen]
                  rfl
                exact .span (ph.span_ok _ _ k hinvd hk) (.nil _)
        · rw [state] at hl ⊢
          cases hl
          exact hhere
    | @error outs d errno reason resume path node state outs_eq =>
        obtain ⟨hinvd, haccepts⟩ := path.accepts hc hinv
        refine ⟨ph.phase d.label d.data, by rw [outs_eq]; exact haccepts, fun l hl => ?_⟩
        have hok := ph.node_ok _ _ hinvd
        rw [node] at hok
        rw [state] at hl ⊢
        exact hok l hl
  · rw [Resting.call_error herror]
    exact ⟨p, .nil p, hs⟩

/-- **All that is called back is accepted**, for one piece after the other. -/
theorem parse_accepts {s : Resting sc} {p : P} (hs : s.InPhase ph p) (bufs : List Bytes) :
    ∃ q, g.Accepts p (s.parse bufs).1.flatten q ∧ (s.parse bufs).2.1.InPhase ph q := by
  induction bufs generalizing s p with
  | nil => exact ⟨p, .nil p, hs⟩
  | cons buf bufs ih =>
      obtain ⟨q, haccepts, hq⟩ := call_accepts hs buf
      simp only [Resting.parse]
      split
      · obtain ⟨r, haccepts', hr⟩ := ih hq
        exact ⟨r, by simpa using haccepts.append haccepts', hr⟩
      · exact ⟨q, by simpa using haccepts, hq⟩

end Phases

end Rslinker.Scan
