import Mathlib.Logic.Function.Basic

set_option autoImplicit false

/-! # Records that are written once

A history is kept as partial maps `κ → Option ν` in which an entry, once made, stays. `Extends` is
the order in which such maps grow; a fact that needs some entries only holds for all later maps.
-/

namespace Rslinker

variable {κ ν : Type*}

def Extends (f g : κ → Option ν) : Prop := ∀ k v, f k = some v → g k = some v

theorem Extends.refl (f : κ → Option ν) : Extends f f := fun _ _ h => h

variable [DecidableEq κ]

def record (f : κ → Option ν) (k : κ) (v : ν) : κ → Option ν := Function.update f k (some v)

variable {f : κ → Option ν} {k k' : κ} {v v' : ν}

@[simp] theorem record_self (f : κ → Option ν) (k : κ) (v : ν) : record f k v k = some v := by
  simp [record]

/-- A new entry under a fresh key leaves the others. -/
theorem extends_record (h : f k = none) (v : ν) : Extends f (record f k v) := by
  intro k' v' hk'
  have hne : k' ≠ k := by
    rintro rfl
    rw [h] at hk'
    cases hk'
  simpa [record, hne] using hk'

/-- An entry of the new map is the new one or an old one. -/
theorem record_eq_some (h : record f k v k' = some v') :
    (k' = k ∧ v' = v) ∨ f k' = some v' := by
  by_cases hk : k' = k
  · subst hk
    rw [record_self] at h
    exact Or.inl ⟨rfl, (Option.some.inj h).symm⟩
  · exact Or.inr (by simpa [record, hk] using h)

end Rslinker
