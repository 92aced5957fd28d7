import Rslinker.Basic.KeyedList
import Rslinker.Client.Links

set_option autoImplicit false

/-! # Documents and the places in them

A parsed document is a table whose values are tables, arrays and plain values. A place in it is the
path of keys and indices that leads there; `follow` is for the paths that lead through tables only.
A `Map` has distinct keys, and so have all tables in it.

A table is a list of entries for the sake of the loops that go over it. `Value.get` takes the first
entry of a key, and for a `Map` there is no other one.
-/

namespace Rslinker.Config

/-- The entries of a `Map<String, Value>`, in the order in which they are visited. -/
abbrev Table := List (String × Value)

namespace Value

theorem get_eq (t : Table) (k : String) : Value.get t k = KeyedList.get t k := rfl

/-! ## The shapes of a value

Only tables, arrays and strings matter for templates. All other values of a document are compared
and copied but never looked into. -/

def isPlain : Value → Bool
  | .array _ | .table _ => false
  | _ => true

theorem asTable_eq_some {v : Value} {t : Table} : v.asTable = some t ↔ v = .table t := by
  cases v <;> simp [asTable]

theorem asStr_eq_some {v : Value} {s : String} : v.asStr = some s ↔ v = .string s := by
  cases v <;> simp [asStr]

/-- Induction over the tree of a value. -/
@[elab_as_elim] theorem tree_induction {P : Value → Prop} (plain : ∀ v, v.isPlain = true → P v)
    (array : ∀ vs, (∀ v ∈ vs, P v) → P (.array vs))
    (table : ∀ t, (∀ k v, (k, v) ∈ t → P v) → P (.table t)) : ∀ v, P v
  | .array vs => array vs fun v hv => by
      have : sizeOf v < 1 + sizeOf vs := by
        have := List.sizeOf_lt_of_mem hv
        omega
      exact tree_induction plain array table v
  | .table t => table t fun k v hv => by
      have : sizeOf v < 1 + sizeOf t := by
        have hlt := List.sizeOf_lt_of_mem hv
        have hpair : sizeOf (k, v) = 1 + sizeOf k + sizeOf v := rfl
        omega
      exact tree_induction plain array table v
  | .string _ | .integer _ | .float _ | .boolean _ | .datetime _ => plain _ rfl
termination_by v => sizeOf v

end Value

/-! ## Places

Two kinds of paths are needed. What a document contains is seen along all of its places; what
`link_config` reaches is seen along keys only. -/

inductive Step
  | key (k : String)
  | index (i : Nat)
  deriving DecidableEq, Repr

namespace Value

/-- The value at a place. -/
def place : Value → List Step → Option Value
  | v, [] => some v
  | .table t, .key k :: path => (Value.get t k).bind fun v => v.place path
  | .array vs, .index i :: path => vs[i]?.bind fun v => v.place path
  | _, _ :: _ => none

/-- The value that the keys lead to, from table to table. -/
def follow (v : Value) (keys : List String) : Option Value := v.place (keys.map .key)

variable {v w : Value} {t u : Table} {vs : List Value} {k : String} {path : List Step}
  {keys : List String}

@[simp] theorem place_nil (v : Value) : v.place [] = some v := by
  cases v <;> rfl

@[simp] theorem place_table (t : Table) (k : String) (path : List Step) :
    (Value.table t).place (.key k :: path) = (Value.get t k).bind fun v => v.place path := rfl

@[simp] theorem place_array (vs : List Value) (i : Nat) (path : List Step) :
    (Value.array vs).place (.index i :: path) = vs[i]?.bind fun v => v.place path := rfl

theorem place_plain {s : Step} (h : v.isPlain = true) : v.place (s :: path) = none := by
  cases v <;> simp [place, isPlain] at h ⊢

@[simp] theorem follow_nil (v : Value) : v.follow [] = some v := place_nil v

@[simp] theorem follow_table (t : Table) (k : String) (keys : List String) :
    (Value.table t).follow (k :: keys) = (Value.get t k).bind fun v => v.follow keys := rfl

theorem follow_of_not_table (h : ∀ t, v ≠ .table t) : v.follow (k :: keys) = none := by
  cases v <;> first | rfl | exact absurd rfl (h _)

/-- A place below the first key. -/
theorem follow_cons (h : v.follow (k :: keys) = some w) :
    ∃ t u, v = .table t ∧ Value.get t k = some u ∧ u.follow keys = some w := by
  by_cases htable : ∃ t, v = .table t
  · obtain ⟨t, rfl⟩ := htable
    obtain ⟨u, hu, hw⟩ := Option.bind_eq_some_iff.mp h
    exact ⟨t, u, rfl, hu, hw⟩
  · rw [follow_of_not_table fun t ht => htable ⟨t, ht⟩] at h
    cases h

end Value

/-! ## Maps

The parser returns maps, so keys are distinct at every level of the tree, not only at the top. A
lemma that goes down the tree takes the property with it. -/

/-- All tables in a value have distinct keys. -/
def Value.Distinct (v : Value) : Prop :=
  ∀ path t, v.place path = some (.table t) → KeyedList.Distinct t

structure Map where
  entries : Table
  distinct : (Value.table entries).Distinct

theorem Value.Distinct.keys {t : Table} (h : (Value.table t).Distinct) : KeyedList.Distinct t :=
  h [] t rfl

theorem Value.Distinct.value {t : Table} {k : String} {v : Value} (h : (Value.table t).Distinct)
    (hv : Value.get t k = some v) : v.Distinct := by
  intro path u hu
  apply h (.key k :: path) u
  rw [Value.place_table, hv]
  exact hu

theorem Value.distinct_table {t : Table} (h : KeyedList.Distinct t)
    (hv : ∀ k v, Value.get t k = some v → v.Distinct) : (Value.table t).Distinct := by
  intro path u hu
  match path with
  | [] =>
      cases hu
      exact h
  | .key k :: path =>
      obtain ⟨v, hk, hu⟩ := Option.bind_eq_some_iff.mp hu
      exact hv k v hk path u hu
  | .index i :: path => cases hu

theorem Value.distinct_array {vs : List Value} (h : ∀ v ∈ vs, v.Distinct) :
    (Value.array vs).Distinct := by
  intro path u hu
  match path with
  | [] => cases hu
  | .key k :: path => cases hu
  | .index i :: path =>
      obtain ⟨v, hi, hu⟩ := Option.bind_eq_some_iff.mp hu
      exact h v (List.mem_of_getElem? hi) path u hu

theorem Value.distinct_plain {v : Value} (h : v.isPlain = true) : v.Distinct := by
  intro path u hu
  cases path with
  | nil =>
      obtain rfl : v = .table u := Option.some.inj ((Value.place_nil v).symm.trans hu)
      cases h
  | cons s path =>
      rw [Value.place_plain h] at hu
      cases hu

theorem Value.Distinct.get_of_mem {t : Table} {k : String} {v : Value}
    (h : (Value.table t).Distinct) (hv : (k, v) ∈ t) : Value.get t k = some v :=
  KeyedList.get_of_mem h.keys hv

end Rslinker.Config
