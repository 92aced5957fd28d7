import Rslinker.Basic.Transition
import Mathlib.Logic.Function.Basic

set_option autoImplicit false

/-! # The first-in first-out queue

The abstract queue with its history: what has been pushed and what has been popped so far. It is
what a transport of messages is for; a concrete transport is shown to simulate it.

Elements are never lost or reordered: what was pushed is what was popped and what is still there
(`reaches_pushed`). The rest of the file is about many queues, and about queues in which several
sources write: when each source has a last message, that message is there once.
-/

namespace Rslinker

/-- A queue, with everything that was ever pushed to it and popped from it. -/
structure Queue (α : Type*) where
  pushed : List α
  popped : List α
  content : List α

namespace Queue

variable {α : Type*}

inductive Op (α : Type*)
  | push (a : α)
  | pop

def empty : Queue α := ⟨[], [], []⟩

def step (q : Queue α) : Op α → Option (Queue α)
  | .push a => some { q with pushed := q.pushed ++ [a], content := q.content ++ [a] }
  | .pop =>
      match q.content with
      | [] => none
      | a :: rest => some { q with popped := q.popped ++ [a], content := rest }

theorem step_pushed {q q' : Queue α} {op : Op α} (hq : q.pushed = q.popped ++ q.content)
    (h : q.step op = some q') : q'.pushed = q'.popped ++ q'.content := by
  cases op with
  | push a =>
      cases h
      simp [hq]
  | pop =>
      rcases hc : q.content with _ | ⟨a, rest⟩
      · simp [step, hc] at h
      · simp only [step, hc, Option.some.injEq] at h
        subst h
        simp [hq, hc]

/-- What was pushed has been popped, or is still in the queue, in order. -/
theorem reaches_pushed {q : Queue α} (h : Reaches step empty q) :
    q.pushed = q.popped ++ q.content :=
  run_invariant (P := fun q : Queue α => q.pushed = q.popped ++ q.content)
    (fun _ _ _ hq hs => step_pushed hq hs) rfl h

end Queue

/-! ## Families of queues

A step of a system with many queues changes one of them, and `Function.update` says which. The
lemmas turn a statement about the changed family into one about the queue that has changed and one
about all the others, which are as they were. -/

section Families

variable {ι α : Type*} [DecidableEq ι] {f : ι → List α} {i j : ι} {a b : α}

/-- What is in a queue after `a` has been pushed to the queue `i`. -/
theorem mem_update_push (h : b ∈ Function.update f i (f i ++ [a]) j) : (j = i ∧ b = a) ∨ b ∈ f j := by
  by_cases hj : j = i
  · subst hj
    rw [Function.update_self, List.mem_append, List.mem_singleton] at h
    exact h.elim Or.inr fun hb => Or.inl ⟨rfl, hb⟩
  · rw [Function.update_of_ne hj] at h
    exact Or.inr h

/-- Replacing a queue by a part of it adds nothing. -/
theorem mem_of_mem_update {l : List α} (hl : ∀ a ∈ l, a ∈ f i) (h : b ∈ Function.update f i l j) :
    b ∈ f j := by
  by_cases hj : j = i
  · subst hj
    rw [Function.update_self] at h
    exact hl b h
  · rwa [Function.update_of_ne hj] at h

/-- A push adds at the end of one queue. -/
theorem prefix_update_push : f j <+: Function.update f i (f i ++ [a]) j := by
  by_cases hj : j = i
  · subst hj
    rw [Function.update_self]
    exact List.prefix_append _ _
  · have hsame : Function.update f i (f i ++ [a]) j = f j := Function.update_of_ne hj _ _
    exact hsame.symm ▸ List.prefix_rfl

/-- A pop takes away from the front of one queue. -/
theorem suffix_update_pop : Function.update f i (f i).tail j <:+ f j := by
  by_cases hj : j = i
  · subst hj
    rw [Function.update_self]
    exact List.tail_suffix _
  · have hsame : Function.update f i (f i).tail j = f j := Function.update_of_ne hj _ _
    exact hsame.symm ▸ List.suffix_rfl

end Families

/-! ## Last messages

Messages of several sources in one queue, each with the name of its source. Some messages are final:
the source sends nothing afterwards. -/

section Final

variable {ι ρ : Type*} {final : ρ → Prop} {l front rest : List (ι × ρ)} {i : ι} {r : ρ}

/-- No source says anything after a final message. -/
def Final (final : ρ → Prop) (l : List (ι × ρ)) : Prop :=
  l.Pairwise fun a b => final a.2 → b.1 ≠ a.1

/-- A source that has not said its last message says more. -/
theorem Final.append {msgs : List ρ} (h : Final final l)
    (hmsgs : msgs.Pairwise fun a _ => ¬ final a)
    (hopen : msgs ≠ [] → ∀ r, final r → (i, r) ∉ l) : Final final (l ++ msgs.map (i, ·)) := by
  refine List.pairwise_append.mpr ⟨h, ?_, ?_⟩
  · rw [List.pairwise_map]
    exact hmsgs.imp fun hnot hfinal => absurd hfinal hnot
  · rintro ⟨j, r⟩ hr b hb hfinal rfl
    obtain ⟨msg, hmsg, rfl⟩ := List.mem_map.mp hb
    exact hopen (List.ne_nil_of_mem hmsg) r hfinal hr

/-- A final message is preceded by no final message of its source, and followed by no message. -/
theorem Final.split (h : Final final (front ++ (i, r) :: rest)) (hr : final r) :
    (∀ r', final r' → (i, r') ∉ front) ∧ ∀ r', (i, r') ∉ rest := by
  obtain ⟨-, hrest, hfront⟩ := List.pairwise_append.mp h
  refine ⟨fun r' hr' hmem => ?_, fun r' hmem => ?_⟩
  · exact hfront _ hmem _ List.mem_cons_self hr' rfl
  · exact (List.pairwise_cons.mp hrest).1 _ hmem hr rfl

/-- **A final message is sent at most once.** -/
theorem Final.count_le_one [DecidableEq ι] [DecidableEq ρ] (h : Final final l) (hr : final r) :
    l.count (i, r) ≤ 1 := by
  by_contra hmore
  have htwo : [(i, r), (i, r)].Sublist l := List.replicate_sublist_iff.mpr (Nat.lt_of_not_le hmore)
  have hpair := List.Pairwise.sublist htwo h
  exact (List.pairwise_cons.mp hpair).1 _ List.mem_cons_self hr rfl

end Final

/-! ## Observing a queue

A step that is given by its states alone does not say what it has pushed. Of a queue that only
grows at its end and shrinks at its front this can be read off the contents before and after the
step, as long as it does not do both. -/

/-- What a step has added to a queue, from its contents before and after. -/
def added {α : Type*} (before after : List α) : List α := after.drop before.length

theorem added_push {α : Type*} (l more : List α) : added l (l ++ more) = more := List.drop_left

theorem added_of_suffix {α : Type*} {l l' : List α} (h : l' <:+ l) : added l l' = [] :=
  List.drop_eq_nil_of_le h.length_le

end Rslinker
