import Mathlib.Data.List.Nodup

set_option autoImplicit false

/-! # Maps as lists of entries

A finite map is its list of entries, in the order in which it is visited. A key is looked up with
`get`; a map that is built by inserting has distinct keys (`Distinct`), and then every entry is the
one that `get` finds.

The order is kept because programs iterate over maps: what a loop over a map does may depend on the
order of the entries, and that it does not is a theorem about permutations. `get` takes the first
entry of a key, so that most lemmas need no `Distinct`.
-/

namespace Rslinker.KeyedList

variable {κ ν μ ε : Type*} [DecidableEq κ] {entries rest first second : List (κ × ν)} {k j : κ}
  {v : ν}

def get (entries : List (κ × ν)) (k : κ) : Option ν := (entries.find? fun e => e.1 = k).map Prod.snd

def erase (entries : List (κ × ν)) (k : κ) : List (κ × ν) := entries.filter fun e => e.1 ≠ k

def Distinct (entries : List (κ × ν)) : Prop := (entries.map Prod.fst).Nodup

/-! ## Looking up -/

@[simp] theorem get_nil (k : κ) : get ([] : List (κ × ν)) k = none := rfl

theorem get_cons (e : κ × ν) : get (e :: rest) k = if e.1 = k then some e.2 else get rest k := by
  unfold get
  rw [List.find?_cons]
  by_cases h : e.1 = k
  · simp [h]
  · simp [h]

theorem get_append : get (first ++ second) k = (get first k).or (get second k) := by
  induction first with
  | nil => simp
  | cons e rest ih =>
      rw [List.cons_append, get_cons, get_cons, ih]
      split
      · rfl
      · rfl

theorem mem_of_get (h : get entries k = some v) : (k, v) ∈ entries := by
  induction entries with
  | nil => cases h
  | cons e rest ih =>
      rw [get_cons] at h
      split at h
      · case isTrue heq =>
          obtain rfl : e.2 = v := Option.some.inj h
          exact List.mem_cons.mpr (Or.inl (Prod.ext heq.symm rfl))
      · exact List.mem_cons_of_mem _ (ih h)

theorem get_eq_none_iff : get entries k = none ↔ k ∉ entries.map Prod.fst := by
  induction entries with
  | nil => simp
  | cons e rest ih =>
      rw [get_cons, List.map_cons, List.mem_cons, not_or]
      split
      · case isTrue heq => simp [heq]
      · case isFalse hne => exact ih.trans (and_iff_right fun h => hne h.symm).symm

/-- The entries of a map with distinct keys are what `get` finds. -/
theorem get_of_mem (hdistinct : Distinct entries) (h : (k, v) ∈ entries) :
    get entries k = some v := by
  induction entries with
  | nil => cases h
  | cons e rest ih =>
      obtain ⟨hnew, hrest⟩ := List.nodup_cons.mp hdistinct
      rw [get_cons]
      rcases List.mem_cons.mp h with rfl | h
      · exact if_pos rfl
      · have hne : e.1 ≠ k := by
          rintro rfl
          exact hnew (List.mem_map.mpr ⟨_, h, rfl⟩)
        rw [if_neg hne]
        exact ih hrest h

/-! ## Removing an entry -/

@[simp] theorem get_erase_self : get (erase entries k) k = none := by
  rw [get_eq_none_iff]
  simp [erase]

theorem get_erase_of_ne (h : j ≠ k) : get (erase entries k) j = get entries j := by
  induction entries with
  | nil => rfl
  | cons e rest ih =>
      unfold erase at ih ⊢
      rw [List.filter_cons]
      by_cases hk : e.1 = k
      · have hj : e.1 ≠ j := fun heq => h (heq.symm.trans hk)
        rw [if_neg (by simpa using hk), ih, get_cons, if_neg hj]
      · rw [if_pos (by simpa using hk), get_cons, get_cons, ih]

theorem distinct_erase (h : Distinct entries) : Distinct (erase entries k) :=
  List.Nodup.sublist (List.Sublist.map _ List.filter_sublist) h

/-! ## Filling in entries

`fill first second` is the union of two maps in which the first one has precedence. Filling in with
a map that has an entry twice takes the first of both, as `get` does. -/

/-- The entries of `second`, one after another, where `first` has none of their key. -/
def fill (first second : List (κ × ν)) : List (κ × ν) :=
  second.foldl (fun first e => if (get first e.1).isSome then first else first ++ [e]) first

theorem fill_cons (e : κ × ν) : fill first (e :: second)
    = fill (if (get first e.1).isSome then first else first ++ [e]) second := rfl

/-- **What is there has precedence.** -/
theorem get_fill : get (fill first second) k = (get first k).or (get second k) := by
  induction second generalizing first with
  | nil => simp [fill]
  | cons e second ih =>
      rw [fill_cons, ih]
      by_cases hk : e.1 = k
      · subst hk
        cases hget : get first e.1 with
        | none => simp [get_append, get_cons, hget]
        | some v => simp [hget]
      · rw [get_cons, if_neg hk]
        split
        · rfl
        · rw [get_append, get_cons, if_neg hk, get_nil, Option.or_none]

theorem distinct_fill (h : Distinct first) : Distinct (fill first second) := by
  induction second generalizing first with
  | nil => exact h
  | cons e second ih =>
      rw [fill_cons]
      apply ih
      split
      · exact h
      · case isFalse hnone =>
          have hnew : e.1 ∉ first.map Prod.fst :=
            get_eq_none_iff.mp (Option.not_isSome_iff_eq_none.mp hnone)
          unfold Distinct
          rw [List.map_append, List.nodup_append]
          refine ⟨h, by simp, fun k hk k' hk' heq => hnew ?_⟩
          rwa [← List.mem_singleton.mp hk', ← heq]

/-! ## Replacing the values

A function that may fail is mapped over the values. The entries are visited in their order and the
first failure ends the loop, so which error comes out depends on the order, but whether there is
one does not (`mapValues_error_iff`). -/

/-- Every value is replaced by what `f` makes of it, until `f` fails. -/
def mapValues (f : ν → Except ε μ) : List (κ × ν) → Except ε (List (κ × μ))
  | [] => .ok []
  | (k, v) :: rest =>
      match f v with
      | .error e => .error e
      | .ok w => (mapValues f rest).map fun rest => (k, w) :: rest

variable {f : ν → Except ε μ} {mapped : List (κ × μ)}

omit [DecidableEq κ] in
theorem mapValues_cons_ok (h : mapValues f ((k, v) :: rest) = .ok mapped) :
    ∃ w tail, f v = .ok w ∧ mapValues f rest = .ok tail ∧ mapped = (k, w) :: tail := by
  simp only [mapValues] at h
  split at h
  · cases h
  · case h_2 w hw =>
      rcases htail : mapValues f rest with e | tail
      · rw [htail] at h
        cases h
      · rw [htail] at h
        cases h
        exact ⟨w, tail, hw, rfl, rfl⟩

theorem get_mapValues (h : mapValues f entries = .ok mapped) :
    (get entries k = none → get mapped k = none) ∧
      ∀ v, get entries k = some v → ∃ w, f v = .ok w ∧ get mapped k = some w := by
  induction entries generalizing mapped with
  | nil =>
      cases h
      simp
  | cons e rest ih =>
      obtain ⟨j, u⟩ := e
      obtain ⟨w, tail, hw, htail, rfl⟩ := mapValues_cons_ok h
      rw [get_cons, get_cons]
      by_cases hk : j = k
      · simp [hk, hw]
      · simpa [hk] using ih htail

omit [DecidableEq κ] in
theorem distinct_mapValues (h : mapValues f entries = .ok mapped) (hdistinct : Distinct entries) :
    Distinct mapped := by
  have hkeys : mapped.map Prod.fst = entries.map Prod.fst := by
    clear hdistinct
    induction entries generalizing mapped with
    | nil =>
        cases h
        rfl
    | cons e rest ih =>
        obtain ⟨w, tail, -, htail, rfl⟩ := mapValues_cons_ok h
        rw [List.map_cons, List.map_cons, ih htail]
  unfold Distinct
  rw [hkeys]
  exact hdistinct

omit [DecidableEq κ] in
/-- The replacement fails on one of the values. -/
theorem mapValues_error_iff :
    (∃ e, mapValues f entries = .error e) ↔ ∃ k v, (k, v) ∈ entries ∧ ∃ e, f v = .error e := by
  induction entries with
  | nil => simp [mapValues]
  | cons entry rest ih =>
      obtain ⟨j, u⟩ := entry
      rcases hu : f u with e | w
      · have hfail : mapValues f ((j, u) :: rest) = .error e := by simp [mapValues, hu]
        exact iff_of_true ⟨e, hfail⟩ ⟨j, u, by simp, e, hu⟩
      · have hrest : (∃ e, mapValues f ((j, u) :: rest) = .error e) ↔
            ∃ e, mapValues f rest = .error e := by
          simp only [mapValues, hu]
          rcases mapValues f rest with e | tail <;> simp [Except.map]
        rw [hrest, ih]
        constructor
        · rintro ⟨k, v, hmem, he⟩
          exact ⟨k, v, List.mem_cons_of_mem _ hmem, he⟩
        · rintro ⟨k, v, hmem, e, he⟩
          rcases List.mem_cons.mp hmem with heq | hmem
          · cases heq
            rw [hu] at he
            cases he
          · exact ⟨k, v, hmem, e, he⟩

end Rslinker.KeyedList
