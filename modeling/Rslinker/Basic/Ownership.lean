import Rslinker.Basic.Transition
import Mathlib.Data.Finset.Basic

set_option autoImplicit false

/-! # Exclusive ownership of resources

Every resource of a type `κ` has at most one owner in `ι`. An owner acquires a set of resources
that nobody owns, and releases resources of its own. Since the owner of a resource is unique, what
two owners hold is disjoint by construction; a program that simulates this system inherits it.

The state is a function to the owners and not a set for each owner: with sets, that they are
disjoint would be an invariant to carry through every step. An acquisition is one step for all of
its resources, so a program that takes them one after the other has to show that nobody comes in
between.
-/

namespace Rslinker

/-- The owner of every resource, `none` for a free one. -/
abbrev Owners (κ ι : Type*) := κ → Option ι

namespace Owners

variable {κ ι : Type*}

inductive Op (κ ι : Type*)
  | acquire (i : ι) (ks : Finset κ)
  | release (i : ι) (ks : Finset κ)

def Op.actor : Op κ ι → ι
  | .acquire i _ => i
  | .release i _ => i

def free : Owners κ ι := fun _ => none

def assign [DecidableEq κ] (o : Owners κ ι) (ks : Finset κ) (x : Option ι) : Owners κ ι :=
  fun k => if k ∈ ks then x else o k

def step [DecidableEq κ] [DecidableEq ι] (o : Owners κ ι) : Op κ ι → Option (Owners κ ι)
  | .acquire i ks => if ∀ k ∈ ks, o k = none then some (o.assign ks (some i)) else none
  | .release i ks => if ∀ k ∈ ks, o k = some i then some (o.assign ks none) else none

section Assign

variable [DecidableEq κ] {o : Owners κ ι} {ks : Finset κ} {k : κ} {x : Option ι}

theorem assign_of_mem (h : k ∈ ks) : o.assign ks x k = x := by
  simp [assign, h]

theorem assign_of_notMem (h : k ∉ ks) : o.assign ks x k = o k := by
  simp [assign, h]

/-- Free resources that get an owner keep the owners of all others. -/
theorem assign_some_of_free {i j : ι} (hfree : ∀ k ∈ ks, o k = none) (h : o k = some j) :
    o.assign ks (some i) k = some j := by
  have hk : k ∉ ks := by
    intro hk
    rw [hfree k hk] at h
    cases h
  rw [assign_of_notMem hk, h]

end Assign

variable [DecidableEq κ] [DecidableEq ι] {o o' : Owners κ ι} {op : Op κ ι} {k : κ}

/-- **Frame rule.** What an owner does leaves the resources of all others with them. -/
theorem step_frame {j : ι} (h : o.step op = some o') (hj : op.actor ≠ j) (hk : o k = some j) :
    o' k = some j := by
  cases op with
  | acquire i ks =>
      obtain ⟨hfree, rfl⟩ := Option.ite_none_right_eq_some.mp h |>.imp_right Option.some.inj
      exact assign_some_of_free hfree hk
  | release i ks =>
      obtain ⟨hown, rfl⟩ := Option.ite_none_right_eq_some.mp h |>.imp_right Option.some.inj
      have hmem : k ∉ ks := by
        intro hmem
        rw [hown k hmem] at hk
        exact hj (Option.some.inj hk)
      rw [assign_of_notMem hmem, hk]

end Owners

end Rslinker
