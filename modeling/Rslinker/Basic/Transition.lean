import Mathlib.Logic.Relation
import Mathlib.Data.List.Basic

set_option autoImplicit false

/-! # Runs of a labelled transition system

A system is a partial step function `step : σ → α → Option σ`: `step s a` is the state the
action `a` leads to from `s`, and `none` when `a` is not enabled there. A run is the list of its
actions. The file has the rules the system proofs are built on:

* `run_invariant`: what every step preserves holds after every run;
* `run_invariant_on`: the same for runs whose steps all meet a condition `C`;
* `run_invariant_history`: the same for an invariant that mentions the actions of the run;
* `run_induction`: the same for an invariant that its steps keep along the run only;
* `run_invariant_outputs`: the same for an invariant that mentions what the run has put out;
* `throughout_iff_stepsMeet`: when a property holds all along a run if and only if its steps meet `C`;
* `run_simulates`: a simulation of one system by the runs of another.
-/

namespace Rslinker

variable {σ α τ β : Type*}

/-! ## Runs

A run that is not enabled is `none`, and so a statement about a run starts from `run step s acts =
some t`. Runs compose by appending their actions, in front (`run_cons`) or behind (`run_concat`).
`Reaches` forgets the actions, for what is about states only. -/

/-- The state a list of actions leads to, `none` when one of them is not enabled. -/
def run (step : σ → α → Option σ) : σ → List α → Option σ
  | s, [] => some s
  | s, a :: acts => (step s a).bind (fun t => run step t acts)

/-- `t` is reached from `s` by some run. -/
def Reaches (step : σ → α → Option σ) (s t : σ) : Prop := ∃ acts, run step s acts = some t

variable {step : σ → α → Option σ}

@[simp] theorem run_nil (s : σ) : run step s [] = some s := rfl

theorem run_cons {s t : σ} {a : α} {acts : List α} :
    run step s (a :: acts) = some t ↔ ∃ u, step s a = some u ∧ run step u acts = some t := by
  simp only [run, Option.bind_eq_some_iff]

theorem run_append {s t : σ} {l₁ l₂ : List α} :
    run step s (l₁ ++ l₂) = some t ↔ ∃ u, run step s l₁ = some u ∧ run step u l₂ = some t := by
  induction l₁ generalizing s with
  | nil => simp
  | cons a l₁ ih =>
      simp only [List.cons_append, run_cons, ih]
      constructor
      · rintro ⟨u, ha, v, h₁, h₂⟩
        exact ⟨v, ⟨u, ha, h₁⟩, h₂⟩
      · rintro ⟨v, ⟨u, ha, h₁⟩, h₂⟩
        exact ⟨u, ha, v, h₁, h₂⟩

/-- One more action. -/
theorem run_concat {s t u : σ} {acts : List α} {a : α} (h : run step s acts = some t)
    (ha : step t a = some u) : run step s (acts ++ [a]) = some u :=
  run_append.mpr ⟨t, h, run_cons.mpr ⟨u, ha, rfl⟩⟩

theorem Reaches.refl (s : σ) : Reaches step s s := ⟨[], rfl⟩

theorem Reaches.trans {s t u : σ} (h₁ : Reaches step s t) (h₂ : Reaches step t u) :
    Reaches step s u := by
  obtain ⟨l₁, h₁⟩ := h₁
  obtain ⟨l₂, h₂⟩ := h₂
  exact ⟨l₁ ++ l₂, run_append.mpr ⟨t, h₁, h₂⟩⟩

theorem Reaches.of_step {s t : σ} {a : α} (h : step s a = some t) : Reaches step s t :=
  ⟨[a], run_cons.mpr ⟨t, h, rfl⟩⟩

/-! ## Invariants

For a program with a defect the plain rule is not enough, since what the program promises is kept
only by the steps that avoid the defect. So the general rule has a condition on the steps, a
predicate of the state and the action, and the plain one is the case in which every step meets it.

With history the invariant is a relation between a state and the actions that have led there. What
has been sent or received is then a function of the actions, and the state can remain that of the
program. -/

/-- Every step of the run `acts` from `s` is taken in a state and by an action that meet `C`. -/
def StepsMeet (step : σ → α → Option σ) (C : σ → α → Prop) : σ → List α → Prop
  | _, [] => True
  | s, a :: acts => C s a ∧ ∀ t, step s a = some t → StepsMeet step C t acts

/-- **The invariant rule for conditional runs.** -/
theorem run_invariant_on {C : σ → α → Prop} {P : σ → Prop}
    (hstep : ∀ s a t, P s → C s a → step s a = some t → P t) :
    ∀ {acts : List α} {s t : σ}, P s → StepsMeet step C s acts → run step s acts = some t → P t := by
  intro acts
  induction acts with
  | nil =>
      intro s t hs _ h
      cases h
      exact hs
  | cons a acts ih =>
      intro s t hs hC h
      obtain ⟨u, ha, hu⟩ := run_cons.mp h
      exact ih (hstep s a u hs hC.1 ha) (hC.2 u ha) hu

theorem stepsMeet_of_forall {C : σ → α → Prop} {acts : List α} (hC : ∀ a ∈ acts, ∀ s, C s a)
    (s : σ) : StepsMeet step C s acts := by
  induction acts generalizing s with
  | nil => trivial
  | cons a acts ih =>
      exact ⟨hC a (by simp) s, fun t _ => ih (fun b hb => hC b (by simp [hb])) t⟩

theorem stepsMeet_append {C : σ → α → Prop} {s : σ} {l₁ l₂ : List α} :
    StepsMeet step C s (l₁ ++ l₂) ↔
      StepsMeet step C s l₁ ∧ ∀ t, run step s l₁ = some t → StepsMeet step C t l₂ := by
  induction l₁ generalizing s with
  | nil => simp [StepsMeet]
  | cons a l₁ ih =>
      simp only [List.cons_append, StepsMeet, ih, run_cons]
      constructor
      · rintro ⟨ha, h⟩
        refine ⟨⟨ha, fun t ht => (h t ht).1⟩, ?_⟩
        rintro t ⟨u, hu, ht⟩
        exact (h u hu).2 t ht
      · rintro ⟨⟨ha, h⟩, hrest⟩
        exact ⟨ha, fun t ht => ⟨h t ht, fun u hu => hrest u ⟨t, ht, hu⟩⟩⟩

theorem stepsMeet_singleton {C : σ → α → Prop} {s : σ} {a : α} :
    StepsMeet step C s [a] ↔ C s a := by
  simp [StepsMeet]

/-- One more step. -/
theorem stepsMeet_concat {C : σ → α → Prop} {s t : σ} {acts : List α} {a : α}
    (hrun : run step s acts = some t) :
    StepsMeet step C s (acts ++ [a]) ↔ StepsMeet step C s acts ∧ C t a := by
  simp [stepsMeet_append, stepsMeet_singleton, hrun]

/-- **The invariant rule.** What every step preserves holds after every run. -/
theorem run_invariant {P : σ → Prop} (hstep : ∀ s a t, P s → step s a = some t → P t)
    {s t : σ} (hs : P s) (h : Reaches step s t) : P t := by
  obtain ⟨acts, h⟩ := h
  exact run_invariant_on (C := fun _ _ => True) (fun s a t hP _ ha => hstep s a t hP ha) hs
    (stepsMeet_of_forall (fun _ _ _ => trivial) s) h

/-- **The invariant rule with history.** The invariant may speak about the actions taken so far. -/
theorem run_invariant_history {P : σ → List α → Prop}
    (hstep : ∀ s done a t, P s done → step s a = some t → P t (done ++ [a]))
    {s t : σ} {done acts : List α} (hs : P s done) (h : run step s acts = some t) :
    P t (done ++ acts) := by
  induction acts generalizing s done with
  | nil =>
      cases h
      simpa using hs
  | cons a acts ih =>
      obtain ⟨u, ha, hu⟩ := run_cons.mp h
      have := ih (hstep s done a u hs ha) hu
      rwa [List.append_assoc, List.singleton_append] at this

/-- **Induction on the run**, from its end: `P` may speak about the actions taken so far, and each
step is taken in a state that they have led to. -/
theorem run_induction {P : σ → List α → Prop} {s t : σ} {acts : List α} (hs : P s [])
    (hstep : ∀ done u a v, run step s done = some u → P u done → step u a = some v →
      P v (done ++ [a]))
    (h : run step s acts = some t) : P t acts := by
  have hall : run step s acts = some t ∧ P t acts := by
    refine run_invariant_history (P := fun t done => run step s done = some t ∧ P t done)
      ?_ ⟨rfl, hs⟩ h
    rintro u done a v ⟨hdone, hu⟩ ha
    exact ⟨run_concat hdone ha, hstep done u a v hdone hu ha⟩
  exact hall.2

/-! ## What a run puts out -/

/-- What the actions of a run put out, in order. -/
def outputs (step : σ → α → Option σ) (out : σ → α → List β) : σ → List α → List β
  | _, [] => []
  | s, a :: acts => out s a ++ (step s a).elim [] fun t => outputs step out t acts

theorem outputs_cons {out : σ → α → List β} {s t : σ} {a : α} {acts : List α}
    (h : step s a = some t) :
    outputs step out s (a :: acts) = out s a ++ outputs step out t acts := by
  simp only [outputs, h, Option.elim_some]

/-- **The invariant rule with outputs.** -/
theorem run_invariant_outputs {out : σ → α → List β} {P : σ → List β → Prop}
    (hstep : ∀ s done a t, P s done → step s a = some t → P t (done ++ out s a))
    {s t : σ} {done : List β} {acts : List α} (hs : P s done) (h : run step s acts = some t) :
    P t (done ++ outputs step out s acts) := by
  induction acts generalizing s done with
  | nil =>
      cases h
      simpa [outputs] using hs
  | cons a acts ih =>
      obtain ⟨u, ha, hu⟩ := run_cons.mp h
      rw [outputs_cons ha, ← List.append_assoc]
      exact ih (hstep s done a u hs ha) hu

/-- One more action. -/
theorem outputs_concat {out : σ → α → List β} {s t : σ} {acts : List α} {a : α}
    (h : run step s acts = some t) :
    outputs step out s (acts ++ [a]) = outputs step out s acts ++ out t a := by
  induction acts generalizing s with
  | nil =>
      cases h
      rcases hstep : step t a with _ | u <;> simp [outputs, hstep]
  | cons b acts ih =>
      obtain ⟨u, hb, hu⟩ := run_cons.mp h
      rw [List.cons_append, outputs_cons hb, outputs_cons hb, ih hu, List.append_assoc]

/-! ## Properties of all states of a run

`throughout_iff_stepsMeet` is the shape in which a defect is stated: the property holds all along a
run if and only if no step of it does what goes wrong. One direction is an invariant under the
condition; the other needs only that a step which breaks the condition ends in a state that breaks
the property. -/

/-- `P` holds in every state of the run `acts` from `s`, the first and the last one included. -/
def Throughout (step : σ → α → Option σ) (P : σ → Prop) : σ → List α → Prop
  | s, [] => P s
  | s, a :: acts => P s ∧ ∀ t, step s a = some t → Throughout step P t acts

theorem Throughout.head {P : σ → Prop} {s : σ} {acts : List α} (h : Throughout step P s acts) :
    P s := by
  cases acts with
  | nil => exact h
  | cons a acts => exact h.1

theorem Throughout.last {P : σ → Prop} {s t : σ} {acts : List α} (h : Throughout step P s acts)
    (hrun : run step s acts = some t) : P t := by
  induction acts generalizing s with
  | nil =>
      cases hrun
      exact h
  | cons a acts ih =>
      obtain ⟨u, ha, hu⟩ := run_cons.mp hrun
      exact ih (h.2 u ha) hu

theorem Throughout.imp {P Q : σ → Prop} (hPQ : ∀ s, P s → Q s) {s : σ} {acts : List α}
    (h : Throughout step P s acts) : Throughout step Q s acts := by
  induction acts generalizing s with
  | nil => exact hPQ s h
  | cons a acts ih => exact ⟨hPQ s h.1, fun t ht => ih (h.2 t ht)⟩

/-- The states of a run are those its first steps lead to. -/
theorem throughout_iff_forall {P : σ → Prop} {s : σ} {acts : List α} :
    Throughout step P s acts ↔ ∀ done t, done <+: acts → run step s done = some t → P t := by
  constructor
  · intro h done t hdone hrun
    induction done generalizing s acts with
    | nil =>
        cases hrun
        exact h.head
    | cons a done ih =>
        obtain ⟨rest, rfl⟩ := hdone
        obtain ⟨u, hu, hrun⟩ := run_cons.mp hrun
        exact ih (h.2 u hu) (List.prefix_append _ _) hrun
  · intro h
    induction acts generalizing s with
    | nil => exact h [] s List.prefix_rfl rfl
    | cons a acts ih =>
        refine ⟨h [] s List.nil_prefix rfl, fun u hu => ih fun done t hdone hrun => ?_⟩
        exact h (a :: done) t (List.cons_prefix_cons.mpr ⟨rfl, hdone⟩) (run_cons.mpr ⟨u, hu, hrun⟩)

/-- What an invariant keeps as long as the steps meet `C` holds throughout such a run. -/
theorem throughout_of_stepsMeet {C : σ → α → Prop} {I : σ → Prop}
    (hkeep : ∀ s a t, I s → C s a → step s a = some t → I t) {s : σ} {acts : List α} (hs : I s)
    (hC : StepsMeet step C s acts) : Throughout step I s acts := by
  induction acts generalizing s with
  | nil => exact hs
  | cons a acts ih => exact ⟨hs, fun t ht => ih (hkeep s a t hs hC.1 ht) (hC.2 t ht)⟩

/-- **The exact condition of a property of runs.** The invariant `I` holds as long as every step
meets `C` and gives `P`, and a step that does not meet `C` ends in a state without `P`. -/
theorem throughout_iff_stepsMeet {C : σ → α → Prop} {I P : σ → Prop} (hI : ∀ s, I s → P s)
    (hkeep : ∀ s a t, I s → C s a → step s a = some t → I t)
    (hbreak : ∀ s a t, I s → ¬ C s a → step s a = some t → ¬ P t)
    {s t : σ} {acts : List α} (hs : I s) (hrun : run step s acts = some t) :
    Throughout step P s acts ↔ StepsMeet step C s acts := by
  constructor
  · intro h
    induction acts generalizing s with
    | nil => trivial
    | cons a acts ih =>
        obtain ⟨u, ha, hu⟩ := run_cons.mp hrun
        have hPu : P u := (h.2 u ha).head
        have hC : C s a := by
          by_contra hC
          exact hbreak s a u hs hC ha hPu
        refine ⟨hC, fun v hv => ?_⟩
        cases ha.symm.trans hv
        exact ih (hkeep s a u hs hC ha) hu (h.2 u ha)
  · exact fun hC => (throughout_of_stepsMeet hkeep hs hC).imp hI

/-! ## Simulation

One step may be answered by any number of steps, also by none. Actions are not related, only
states: a property of the second system that is about its states carries over. -/

/-- **The simulation rule.** When every step of the first system, from states related by `R`, is
answered by a run of the second one that ends in related states, every run is. -/
theorem run_simulates {step' : τ → β → Option τ} {R : σ → τ → Prop}
    (hstep : ∀ s s' a t, R s t → step s a = some s' → ∃ t', Reaches step' t t' ∧ R s' t')
    {s s' : σ} {t : τ} (hR : R s t) (h : Reaches step s s') : ∃ t', Reaches step' t t' ∧ R s' t' := by
  refine run_invariant (P := fun s => ∃ t', Reaches step' t t' ∧ R s t') ?_ ⟨t, .refl t, hR⟩ h
  rintro u a u' ⟨v, hv, hRv⟩ ha
  obtain ⟨v', hv', hR'⟩ := hstep u u' a v hRv ha
  exact ⟨v', hv.trans hv', hR'⟩

end Rslinker
