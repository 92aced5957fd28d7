import Rslinker.Config.Table

set_option autoImplicit false

/-! # Templates: `override_config` and `link_config`

A table may have a `redirect` entry that names a template. `link_config` first links the tables in
it, then removes the entry and fills in the template's entries where the table has none of their
key. Linking stops at anything but a table, so the tables in an array are left as they are.

The main result says when linking fails and what it leaves at every level. It does not follow the
order in which the code changes the tables: that the loop and the redirect of a level commute is a
lemma.
-/

namespace Rslinker.Config

/-! ## The code

`link_config` changes its table in place while it visits the entries, and calls itself for those
that are tables. Here it returns the new table, or the first error. The entries are linked before
the `redirect` of their own table is looked at, and what the template brings in is not visited any
more. -/

inductive LinkError
  /-- "config must be str" -/
  | notStr
  /-- "config must be table" -/
  | notTable
  /-- "Can't find the config named {config:?}" -/
  | notFound (config : String)
  deriving DecidableEq, Repr

def overrideConfig (first second : Table) : Table := KeyedList.fill first second

/-- `link_config` after its loop: the `redirect` entry is removed and followed. -/
def redirect (configs table : Table) : Except LinkError Table :=
  match Value.get table "redirect" with
  | none => .ok table
  | some config =>
      match config.asStr with
      | none => .error .notStr
      | some config =>
          match Value.get configs config with
          | none => .error (.notFound config)
          | some template =>
              match template.asTable with
              | none => .error .notTable
              | some template => .ok (overrideConfig (KeyedList.erase table "redirect") template)

mutual

/-- The body of the loop of `link_config`. -/
def linkValue (configs : Table) : Value → Except LinkError Value
  | .table table =>
      match linkEntries configs table with
      | .error e => .error e
      | .ok table => (redirect configs table).map .table
  | value => .ok value

/-- The loop of `link_config`. -/
def linkEntries (configs : Table) : Table → Except LinkError Table
  | [] => .ok []
  | (key, value) :: rest =>
      match linkValue configs value with
      | .error e => .error e
      | .ok value => (linkEntries configs rest).map fun rest => (key, value) :: rest

end

def linkConfig (configs table : Table) : Except LinkError Table :=
  match linkEntries configs table with
  | .error e => .error e
  | .ok table => redirect configs table

/-! ## One level

A level is a table without what is below its entries. The loop changes no entry but tables, and a
`redirect` that can be followed is a string, so that the loop and the redirect do not disturb each
other (`template_linkEntries`). -/

def template (configs table : Table) : Option Table :=
  (Value.get table "redirect").bind fun config =>
    config.asStr.bind fun config => (Value.get configs config).bind Value.asTable

/-- The value is a string that names a template. -/
def Names (configs : Table) (v : Value) : Prop :=
  ∃ name u, v = .string name ∧ Value.get configs name = some (.table u)

section Level

variable {configs t m u : Table} {v w : Value} {k : String}

theorem template_eq_some : template configs t = some u ↔
    ∃ name, Value.get t "redirect" = some (.string name) ∧
      Value.get configs name = some (.table u) := by
  simp only [template, Option.bind_eq_some_iff, Value.asStr_eq_some, Value.asTable_eq_some]
  constructor
  · rintro ⟨v, hv, name, rfl, w, hw, rfl⟩
    exact ⟨name, hv, hw⟩
  · rintro ⟨name, hv, hw⟩
    exact ⟨_, hv, name, rfl, _, hw, rfl⟩

theorem linkValue_table (configs t : Table) :
    linkValue configs (.table t) = (linkConfig configs t).map .table := by
  rw [linkValue, linkConfig]
  cases linkEntries configs t <;> rfl

theorem linkValue_of_not_table (h : ∀ t, v ≠ .table t) : linkValue configs v = .ok v := by
  cases v <;> first | rfl | exact absurd rfl (h _)

/-- What is linked keeps its shape. -/
theorem linkValue_ok (h : linkValue configs v = .ok w) :
    (∃ t m, v = .table t ∧ w = .table m ∧ linkConfig configs t = .ok m) ∨
      (∀ t, v ≠ .table t) ∧ w = v := by
  by_cases htable : ∃ t, v = .table t
  · obtain ⟨t, rfl⟩ := htable
    rw [linkValue_table] at h
    rcases hm : linkConfig configs t with e | m
    · rw [hm] at h
      cases h
    · rw [hm] at h
      cases h
      exact Or.inl ⟨t, m, rfl, rfl, hm⟩
  · have hne : ∀ t, v ≠ .table t := fun t ht => htable ⟨t, ht⟩
    rw [linkValue_of_not_table hne] at h
    exact Or.inr ⟨hne, (Except.ok.inj h).symm⟩

theorem linkEntries_eq (configs t : Table) :
    linkEntries configs t = KeyedList.mapValues (linkValue configs) t := by
  induction t with
  | nil => rfl
  | cons e rest ih =>
      obtain ⟨key, value⟩ := e
      rw [linkEntries, KeyedList.mapValues]
      cases linkValue configs value with
      | error e => rfl
      | ok value => rw [ih]

theorem names_iff : Names configs v ↔
    ∃ name u, v.asStr = some name ∧ Value.get configs name = some (.table u) := by
  simp only [Names, Value.asStr_eq_some]

theorem linkValue_asStr (h : linkValue configs v = .ok w) : w.asStr = v.asStr := by
  rcases linkValue_ok h with ⟨t, m, rfl, rfl, -⟩ | ⟨-, rfl⟩
  · rfl
  · rfl

/-! ### The entry is followed -/

theorem redirect_ok (h : redirect configs t = .ok m) :
    (Value.get t "redirect" = none ∧ m = t) ∨
      ∃ u, template configs t = some u ∧ m = overrideConfig (KeyedList.erase t "redirect") u := by
  unfold redirect at h
  split at h
  · case h_1 hnone =>
      cases h
      exact Or.inl ⟨hnone, rfl⟩
  · case h_2 config hconfig =>
      split at h
      · cases h
      · case h_2 name hname =>
          split at h
          · cases h
          · case h_2 entry hentry =>
              split at h
              · cases h
              · case h_2 u hu =>
                  cases h
                  exact Or.inr ⟨u, by simp [template, hconfig, hname, hentry, hu], rfl⟩

/-- What the level holds afterwards. -/
theorem get_redirect (h : redirect configs t = .ok m) (k : String) :
    Value.get m k = (if k = "redirect" then none else Value.get t k).or
      ((template configs t).bind fun u => Value.get u k) := by
  rcases redirect_ok h with ⟨hnone, rfl⟩ | ⟨u, hu, rfl⟩
  · have htemplate : template configs m = none := by simp [template, hnone]
    rw [htemplate, Option.bind_none, Option.or_none]
    split
    · case isTrue hk => rw [hk, hnone]
    · rfl
  · -- the entry is removed before the template fills the level up
    rw [hu, Option.bind_some, Value.get_eq, overrideConfig, KeyedList.get_fill]
    split
    · case isTrue hk => rw [hk, KeyedList.get_erase_self, Value.get_eq]
    · case isFalse hk => rw [KeyedList.get_erase_of_ne hk, Value.get_eq, Value.get_eq]

theorem redirect_error_iff : (∃ e, redirect configs t = .error e) ↔
    ∃ v, Value.get t "redirect" = some v ∧ ¬ Names configs v := by
  simp only [names_iff, not_exists, not_and]
  unfold redirect
  split
  · case h_1 hnone => simp [hnone]
  · case h_2 v hv =>
      simp only [hv, Option.some.injEq, exists_eq_left']
      split
      · case h_1 hstr => simp [hstr]
      · case h_2 name hstr =>
          split
          · case h_1 hget =>
              -- there is no template of this name
              refine iff_of_true ⟨_, rfl⟩ fun name' u hname hentry => ?_
              obtain rfl : name = name' := Option.some.inj (hstr.symm.trans hname)
              cases hget.symm.trans hentry
          · case h_2 entry hget =>
              split
              · case h_1 htable =>
                  -- what has this name is not a table
                  refine iff_of_true ⟨_, rfl⟩ fun name' u hname hentry => ?_
                  obtain rfl : name = name' := Option.some.inj (hstr.symm.trans hname)
                  obtain rfl : entry = .table u := Option.some.inj (hget.symm.trans hentry)
                  cases htable
              · case h_2 u htable =>
                  rw [Value.asTable_eq_some.mp htable] at hget
                  exact iff_of_false (by simp) fun h => h name u hstr hget

/-! ### The whole level -/

/-- The `redirect` entry of a level is the same after the loop, as far as it names a template. -/
theorem template_linkEntries (h : linkEntries configs t = .ok m) :
    template configs m = template configs t ∧
      ((∃ v, Value.get m "redirect" = some v ∧ ¬ Names configs v) ↔
        ∃ v, Value.get t "redirect" = some v ∧ ¬ Names configs v) := by
  rw [linkEntries_eq] at h
  obtain ⟨hnone, hsome⟩ := KeyedList.get_mapValues (k := "redirect") h
  simp only [← Value.get_eq] at hnone hsome
  rcases hv : Value.get t "redirect" with _ | v
  · simp [template, hv, hnone hv]
  · obtain ⟨w, hw, hm⟩ := hsome v hv
    simp [template, names_iff, hv, hm, linkValue_asStr hw]

/-- **What a level holds after `link_config`**: its own entries, linked, and those of its template
under other keys. -/
theorem get_linkConfig (h : linkConfig configs t = .ok m) (k : String) :
    (k = "redirect" ∨ Value.get t k = none →
      Value.get m k = (template configs t).bind fun u => Value.get u k) ∧
      ∀ v, k ≠ "redirect" → Value.get t k = some v →
        ∃ w, linkValue configs v = .ok w ∧ Value.get m k = some w := by
  rw [linkConfig] at h
  rcases hentries : linkEntries configs t with e | t'
  · rw [hentries] at h
    cases h
  · rw [hentries] at h
    -- the loop leaves strings alone, so the level still names the same template
    obtain ⟨htemplate, -⟩ := template_linkEntries hentries
    rw [linkEntries_eq] at hentries
    obtain ⟨hnone, hsome⟩ := KeyedList.get_mapValues (k := k) hentries
    simp only [← Value.get_eq] at hnone hsome
    rw [get_redirect h, htemplate]
    constructor
    · rintro (hk | hk)
      · rw [if_pos hk, Option.none_or]
      · rw [hnone hk, ite_self, Option.none_or]
    · intro v hk hv
      obtain ⟨w, hw, hget⟩ := hsome v hv
      exact ⟨w, hw, by rw [if_neg hk, hget, Option.some_or]⟩

/-- Where an entry of a linked level comes from. -/
theorem get_of_linkConfig (h : linkConfig configs t = .ok m) (hw : Value.get m k = some w) :
    (∃ v, Value.get t k = some v ∧ linkValue configs v = .ok w) ∨
      ∃ u, template configs t = some u ∧ Value.get u k = some w := by
  obtain ⟨hadded, hkept⟩ := get_linkConfig h k
  by_cases hk : k = "redirect" ∨ Value.get t k = none
  · rw [hadded hk] at hw
    exact Or.inr (Option.bind_eq_some_iff.mp hw)
  · obtain ⟨hk, hsome⟩ := not_or.mp hk
    obtain ⟨v, hv⟩ := Option.ne_none_iff_exists'.mp hsome
    obtain ⟨w', hw', hget⟩ := hkept v hk hv
    obtain rfl : w' = w := Option.some.inj (hget.symm.trans hw)
    exact Or.inl ⟨v, hv, hw'⟩

theorem distinct_linkConfig (h : KeyedList.Distinct t) (hm : linkConfig configs t = .ok m) :
    KeyedList.Distinct m := by
  rw [linkConfig, linkEntries_eq] at hm
  split at hm
  · cases hm
  · case h_2 t' hentries =>
      have hdistinct : KeyedList.Distinct t' := KeyedList.distinct_mapValues hentries h
      rcases redirect_ok hm with ⟨-, rfl⟩ | ⟨u, -, rfl⟩
      · exact hdistinct
      · exact KeyedList.distinct_fill (KeyedList.distinct_erase hdistinct)

theorem linkConfig_error_iff : (∃ e, linkConfig configs t = .error e) ↔
    (∃ k v, (k, v) ∈ t ∧ ∃ e, linkValue configs v = .error e) ∨
      ∃ v, Value.get t "redirect" = some v ∧ ¬ Names configs v := by
  rw [← KeyedList.mapValues_error_iff, ← linkEntries_eq, linkConfig]
  rcases hentries : linkEntries configs t with e | t'
  · simp
  · rw [← (template_linkEntries hentries).2, ← redirect_error_iff]
    simp

end Level

/-! ## All levels

The recursion of the code goes down the tree of tables, and so do the proofs. `Broken` finds a bad
redirect anywhere below, by a path of keys; `follow_linkConfig` says that a path through the
original tables leads to the linked ones, level by level. -/

/-- The table, or one nested in it through tables, has a `redirect` entry that does not name a
template. -/
def Broken (configs : Table) (v : Value) : Prop :=
  ∃ keys u w, v.follow keys = some (.table u) ∧ Value.get u "redirect" = some w ∧ ¬ Names configs w

/-- What `link_config` makes of one level. -/
structure LevelMerged (configs t m : Table) : Prop where
  kept : ∀ k v, k ≠ "redirect" → Value.get t k = some v → (∀ u, v ≠ .table u) →
    Value.get m k = some v
  linked : ∀ k u, k ≠ "redirect" → Value.get t k = some (.table u) →
    ∃ u', linkConfig configs u = .ok u' ∧ Value.get m k = some (.table u')
  added : ∀ k, k = "redirect" ∨ Value.get t k = none →
    Value.get m k = (template configs t).bind fun u => Value.get u k

section Levels

variable {configs configs' t t' m m' u : Table} {v w : Value} {k : String} {keys : List String}

theorem linkConfig_level (h : linkConfig configs t = .ok m) : LevelMerged configs t m where
  kept k v hk hv htable := by
    obtain ⟨w, hw, hget⟩ := (get_linkConfig h k).2 v hk hv
    rw [linkValue_of_not_table htable] at hw
    rw [hget, ← Except.ok.inj hw]
  linked k u hk hu := by
    obtain ⟨w, hw, hget⟩ := (get_linkConfig h k).2 _ hk hu
    rcases linkValue_ok hw with ⟨u', m', heq, rfl, hm⟩ | ⟨hne, -⟩
    · cases heq
      exact ⟨m', hm, hget⟩
    · exact absurd rfl (hne u)
  added k hk := (get_linkConfig h k).1 hk

theorem broken_table_iff : Broken configs (.table t) ↔
    (∃ w, Value.get t "redirect" = some w ∧ ¬ Names configs w) ∨
      ∃ k v, Value.get t k = some v ∧ Broken configs v := by
  constructor
  · rintro ⟨keys, u, w, hu, hw⟩
    cases keys with
    | nil =>
        cases hu
        exact Or.inl ⟨w, hw⟩
    | cons k keys =>
        obtain ⟨v, hv, hu⟩ := Option.bind_eq_some_iff.mp hu
        exact Or.inr ⟨k, v, hv, keys, u, w, hu, hw⟩
  · rintro (⟨w, hw⟩ | ⟨k, v, hv, keys, u, w, hu, hw⟩)
    · exact ⟨[], t, w, rfl, hw⟩
    · refine ⟨k :: keys, u, w, ?_, hw⟩
      rw [Value.follow_table, hv]
      exact hu

theorem not_broken_of_not_table (h : ∀ t, v ≠ .table t) : ¬ Broken configs v := by
  rintro ⟨keys, u, w, hu, -⟩
  cases keys with
  | nil =>
      rw [Value.follow_nil] at hu
      exact h u (Option.some.inj hu)
  | cons k keys =>
      rw [Value.follow_of_not_table h] at hu
      cases hu

/-- **Exactly when linking fails.** -/
theorem linkValue_error_iff (configs : Table) {v : Value} (hdistinct : v.Distinct) :
    (∃ e, linkValue configs v = .error e) ↔ Broken configs v := by
  induction v using Value.tree_induction with
  | plain v hplain =>
      have hne : ∀ t, v ≠ .table t := by
        rintro t rfl
        cases hplain
      simp [linkValue_of_not_table hne, not_broken_of_not_table hne]
  | array vs _ =>
      -- `link_config` does not look into arrays, and no path of keys does
      have hne : ∀ t, Value.array vs ≠ .table t := by simp
      simp [linkValue_of_not_table hne, not_broken_of_not_table hne]
  | table t ih =>
      have hmap : (∃ e, linkValue configs (.table t) = .error e) ↔
          ∃ e, linkConfig configs t = .error e := by
        rw [linkValue_table]
        rcases linkConfig configs t with e | m <;> simp [Except.map]
      rw [hmap, linkConfig_error_iff, broken_table_iff, or_comm]
      apply or_congr_right
      constructor
      · rintro ⟨k, v, hmem, he⟩
        have hv : Value.get t k = some v := hdistinct.get_of_mem hmem
        exact ⟨k, v, hv, (ih k v hmem (hdistinct.value hv)).mp he⟩
      · rintro ⟨k, v, hv, hbroken⟩
        have hmem : (k, v) ∈ t := KeyedList.mem_of_get hv
        exact ⟨k, v, hmem, (ih k v hmem (hdistinct.value hv)).mpr hbroken⟩

theorem linkConfig_broken_iff (configs : Table) (table : Map) :
    (∃ e, linkConfig configs table.entries = .error e) ↔ Broken configs (.table table.entries) := by
  rw [← linkValue_error_iff configs table.distinct, linkValue_table]
  rcases linkConfig configs table.entries with e | m <;> simp [Except.map]

theorem names_of_linkConfig (h : linkConfig configs t = .ok m)
    (hv : Value.get t "redirect" = some v) : Names configs v := by
  by_contra hnot
  obtain ⟨e, he⟩ := linkConfig_error_iff.mpr (Or.inr ⟨v, hv, hnot⟩)
  cases h.symm.trans he

/-- **What `link_config` makes of a map is a map.** -/
theorem linkValue_distinct (hconfigs : (Value.table configs).Distinct) (hdistinct : v.Distinct)
    (h : linkValue configs v = .ok w) : w.Distinct := by
  induction v using Value.tree_induction generalizing w with
  | plain v hplain =>
      rw [linkValue_of_not_table (by rintro t rfl; cases hplain)] at h
      exact Except.ok.inj h ▸ hdistinct
  | array vs _ =>
      rw [linkValue_of_not_table (by simp)] at h
      exact Except.ok.inj h ▸ hdistinct
  | table t ih =>
      rcases linkValue_ok h with ⟨t', m, heq, rfl, hm⟩ | ⟨hne, -⟩
      · cases heq
        apply Value.distinct_table (distinct_linkConfig hdistinct.keys hm)
        intro k u hu
        -- an entry was there and has been linked, or the template has brought it in
        rcases get_of_linkConfig hm hu with ⟨r, hr, hlink⟩ | ⟨r, hr, hget⟩
        · exact ih k r (KeyedList.mem_of_get hr) (hdistinct.value hr) hlink
        · obtain ⟨name, -, hname⟩ := template_eq_some.mp hr
          exact (hconfigs.value hname).value hget
      · exact absurd rfl (hne t)

theorem linkConfig_distinct (configs table : Map) {merged : Table}
    (h : linkConfig configs.entries table.entries = .ok merged) : (Value.table merged).Distinct := by
  apply linkValue_distinct configs.distinct table.distinct
  rw [linkValue_table, h]
  rfl

/-- The levels of a table are linked in place. -/
theorem follow_linkConfig (h : linkConfig configs t = .ok m)
    (hu : (Value.table t).follow keys = some (.table u)) :
    ∃ u', (Value.table m).follow keys = some (.table u') ∧ linkConfig configs u = .ok u' := by
  induction keys generalizing t m with
  | nil =>
      cases hu
      exact ⟨m, rfl, h⟩
  | cons k keys ih =>
      rw [Value.follow_table] at hu
      obtain ⟨v, hv, hfollow⟩ := Option.bind_eq_some_iff.mp hu
      obtain ⟨t₁, rfl⟩ : ∃ t₁, v = .table t₁ := by
        cases keys with
        | nil =>
            rw [Value.follow_nil] at hfollow
            exact ⟨u, Option.some.inj hfollow⟩
        | cons j keys =>
            obtain ⟨t₁, -, ht₁, -⟩ := Value.follow_cons hfollow
            exact ⟨t₁, ht₁⟩
      -- the entry `redirect` is a string, and no table is behind it
      have hk : k ≠ "redirect" := by
        rintro rfl
        obtain ⟨name, u, hname, -⟩ := names_of_linkConfig h hv
        cases hname
      obtain ⟨m₁, hm₁, hget⟩ := (linkConfig_level h).linked k t₁ hk hv
      obtain ⟨u', hu', hlink⟩ := ih hm₁ hfollow
      refine ⟨u', ?_, hlink⟩
      rw [Value.follow_table, hget]
      exact hu'

end Levels

/-! ## The order of the entries

Two tables are the `Same` when the same paths of keys lead to tables in both, and to equal values
otherwise. This is coarser than a permutation of the entries, as tables below may be permuted as
well, and it is enough for `link_config`, which only ever looks up keys. -/

/-- A table without its entries; any other value. -/
def shape : Value → Value
  | .table _ => .table []
  | v => v

/-- The same value but for the order of the entries: the same keys lead to tables, and to the same
other values. -/
def Same (v w : Value) : Prop := ∀ keys, (v.follow keys).map shape = (w.follow keys).map shape

section Same

variable {configs configs' t t' m m' u : Table} {v w : Value} {k : String} {keys : List String}

theorem shape_eq_table : shape v = .table [] ↔ ∃ t, v = .table t := by
  cases v <;> simp [shape]

theorem shape_of_not_table (h : ∀ t, v ≠ .table t) : shape v = v := by
  cases v <;> first | rfl | exact absurd rfl (h _)

namespace Same

theorem refl (v : Value) : Same v v := fun _ => rfl

theorem symm (h : Same v w) : Same w v := fun keys => (h keys).symm

theorem shape_eq (h : Same v w) : shape v = shape w := by
  have := h []
  simpa using this

theorem of_table (h : Same (.table t) w) : ∃ t', w = .table t' :=
  shape_eq_table.mp h.shape_eq.symm

theorem of_not_table (h : Same v w) (hne : ∀ t, v ≠ .table t) : w = v := by
  by_cases hw : ∃ t, w = .table t
  · obtain ⟨t, rfl⟩ := hw
    obtain ⟨t', rfl⟩ := h.symm.of_table
    exact absurd rfl (hne t')
  · have hshape := h.shape_eq
    rw [shape_of_not_table hne, shape_of_not_table fun t ht => hw ⟨t, ht⟩] at hshape
    exact hshape.symm

theorem get_none (h : Same (.table t) (.table t')) (hk : Value.get t k = none) :
    Value.get t' k = none := by
  have hmap := h [k]
  rw [Value.follow_table, Value.follow_table, hk, Option.bind_none, Option.map_none] at hmap
  simpa using hmap.symm

theorem get_some (h : Same (.table t) (.table t')) (hk : Value.get t k = some v) :
    ∃ w, Value.get t' k = some w ∧ Same v w := by
  rcases hw : Value.get t' k with _ | w
  · rw [h.symm.get_none hw] at hk
    cases hk
  · refine ⟨w, rfl, fun keys => ?_⟩
    have := h (k :: keys)
    simpa [hk, hw] using this

theorem follow_some (h : Same v w) (hu : v.follow keys = some (.table u)) :
    ∃ u', w.follow keys = some (.table u') ∧ Same (.table u) (.table u') := by
  induction keys generalizing v w with
  | nil =>
      rw [Value.follow_nil] at hu
      cases hu
      obtain ⟨u', rfl⟩ := h.of_table
      exact ⟨u', rfl, h⟩
  | cons k keys ih =>
      obtain ⟨t, v₁, rfl, hv₁, hu⟩ := Value.follow_cons hu
      obtain ⟨t', rfl⟩ := h.of_table
      obtain ⟨w₁, hw₁, hsame⟩ := h.get_some hv₁
      obtain ⟨u', hu', hsame⟩ := ih hsame hu
      refine ⟨u', ?_, hsame⟩
      rw [Value.follow_table, hw₁]
      exact hu'

/-- A string that names a template names one in any order. -/
theorem names (hc : Same (.table configs) (.table configs')) (h : Same v w)
    (hv : Names configs v) : Names configs' w := by
  obtain ⟨name, u, rfl, hu⟩ := hv
  obtain ⟨w', hw', hsame⟩ := hc.get_some hu
  obtain ⟨u', rfl⟩ := hsame.of_table
  exact ⟨name, u', h.of_not_table (by simp), hw'⟩

theorem broken (hc : Same (.table configs) (.table configs')) (h : Same v w)
    (hv : Broken configs v) : Broken configs' w := by
  obtain ⟨keys, u, r, hu, hr, hnot⟩ := hv
  obtain ⟨u', hu', hsame⟩ := h.follow_some hu
  obtain ⟨r', hr', hsame⟩ := hsame.get_some hr
  exact ⟨keys, u', r', hu', hr', fun hnames => hnot (hc.symm.names hsame.symm hnames)⟩

theorem template_some (hc : Same (.table configs) (.table configs'))
    (h : Same (.table t) (.table t')) (hu : template configs t = some u) :
    ∃ u', template configs' t' = some u' ∧ Same (.table u) (.table u') := by
  obtain ⟨name, hname, hu⟩ := template_eq_some.mp hu
  obtain ⟨r, hr, hsame⟩ := h.get_some hname
  rw [hsame.of_not_table (by simp)] at hr
  obtain ⟨w, hw, hsame⟩ := hc.get_some hu
  obtain ⟨u', rfl⟩ := hsame.of_table
  exact ⟨u', template_eq_some.mpr ⟨name, hr, hw⟩, hsame⟩

/-- What is read below a key of the template. -/
theorem template_get (hc : Same (.table configs) (.table configs'))
    (h : Same (.table t) (.table t')) (k : String) (keys : List String) :
    (((template configs t).bind fun u => Value.get u k).bind fun v => v.follow keys).map shape
      = (((template configs' t').bind fun u => Value.get u k).bind fun v =>
          v.follow keys).map shape := by
  rcases hu : template configs t with _ | u
  · rcases hu' : template configs' t' with _ | u'
    · rfl
    · obtain ⟨u, hsome, -⟩ := template_some hc.symm h.symm hu'
      cases hu.symm.trans hsome
  · obtain ⟨u', hu', hsame⟩ := template_some hc h hu
    rw [hu']
    exact hsame (k :: keys)

end Same

/-- **Linking does not depend on the order** in which the entries of the table, of the templates,
and of the tables nested in them are visited. -/
theorem linkConfig_same (hc : Same (.table configs) (.table configs'))
    (h : Same (.table t) (.table t')) (hm : linkConfig configs t = .ok m)
    (hm' : linkConfig configs' t' = .ok m') : Same (.table m) (.table m') := by
  intro keys
  induction keys generalizing t t' m m' with
  | nil => rfl
  | cons k keys ih =>
      rw [Value.follow_table, Value.follow_table]
      have hlevel := linkConfig_level hm
      have hlevel' := linkConfig_level hm'
      rcases hv : Value.get t k with _ | v
      · rw [hlevel.added k (Or.inr hv), hlevel'.added k (Or.inr (h.get_none hv))]
        exact Same.template_get hc h k keys
      · by_cases hk : k = "redirect"
        · rw [hlevel.added k (Or.inl hk), hlevel'.added k (Or.inl hk)]
          exact Same.template_get hc h k keys
        · obtain ⟨w, hw, hsame⟩ := h.get_some hv
          by_cases htable : ∃ u, v = .table u
          · obtain ⟨u, rfl⟩ := htable
            obtain ⟨u', rfl⟩ := hsame.of_table
            obtain ⟨n, hn, hget⟩ := hlevel.linked k u hk hv
            obtain ⟨n', hn', hget'⟩ := hlevel'.linked k u' hk hw
            rw [hget, hget']
            exact ih hsame hn hn'
          · have hne : ∀ u, v ≠ .table u := fun u hu => htable ⟨u, hu⟩
            obtain rfl : w = v := hsame.of_not_table hne
            rw [hlevel.kept k w hk hv hne, hlevel'.kept k w hk hw hne]

/-- Another order of a table with distinct keys. -/
theorem same_of_perm (hperm : t.Perm t') (hdistinct : KeyedList.Distinct t) :
    Same (.table t) (.table t') := by
  have hget : ∀ k, Value.get t k = Value.get t' k := by
    intro k
    have hdistinct' : KeyedList.Distinct t' := (hperm.map Prod.fst).nodup_iff.mp hdistinct
    rcases hv : Value.get t' k with _ | v
    · rw [Value.get_eq, KeyedList.get_eq_none_iff] at hv ⊢
      rwa [(hperm.map Prod.fst).mem_iff]
    · exact KeyedList.get_of_mem hdistinct (hperm.mem_iff.mpr (KeyedList.mem_of_get hv))
  intro keys
  cases keys with
  | nil => rfl
  | cons k keys => rw [Value.follow_table, Value.follow_table, hget k]

/-- **Linking is the same in any order of the entries.** -/
theorem linkConfig_perm {configs configs' table table' : Map}
    (hconfigs : configs.entries.Perm configs'.entries) (htable : table.entries.Perm table'.entries)
    {merged : Table} (h : linkConfig configs.entries table.entries = .ok merged) :
    ∃ merged', linkConfig configs'.entries table'.entries = .ok merged' ∧
      Same (.table merged) (.table merged') := by
  have hc := same_of_perm hconfigs configs.distinct.keys
  have ht := same_of_perm htable table.distinct.keys
  rcases hm : linkConfig configs'.entries table'.entries with e | merged'
  · -- a level that is broken is so in both orders
    have hbroken := (linkConfig_broken_iff _ _).mp ⟨e, hm⟩
    obtain ⟨e', he'⟩ := (linkConfig_broken_iff _ table).mpr (hc.symm.broken ht.symm hbroken)
    cases h.symm.trans he'
  · exact ⟨merged', rfl, linkConfig_same hc ht h hm⟩

end Same

/-- **What `link_config` does**, for any table and any templates. It fails if and only if some level
has a `redirect` entry that does not name a template. Otherwise its result is a map again, in which no
level loses or changes an entry but `redirect`, and what a level gains is what its template has under
the other keys. The order of the entries does not matter, nor does any other change of the two maps
that leaves the same values behind the same keys. -/
theorem linkConfig_contract (configs table : Map) :
    ((∃ e, linkConfig configs.entries table.entries = .error e) ↔
      Broken configs.entries (.table table.entries)) ∧
    (∀ merged, linkConfig configs.entries table.entries = .ok merged →
      (Value.table merged).Distinct ∧
      ∀ keys t, (Value.table table.entries).follow keys = some (.table t) →
        ∃ m, (Value.table merged).follow keys = some (.table m) ∧
          LevelMerged configs.entries t m) ∧
    (∀ configs' table' : Map, configs.entries.Perm configs'.entries →
      table.entries.Perm table'.entries →
      ∀ merged, linkConfig configs.entries table.entries = .ok merged →
        ∃ merged', linkConfig configs'.entries table'.entries = .ok merged' ∧
          Same (.table merged) (.table merged')) ∧
    ∀ configs' table' : Map, Same (.table configs.entries) (.table configs'.entries) →
      Same (.table table.entries) (.table table'.entries) →
      ((∃ e, linkConfig configs.entries table.entries = .error e) ↔
        ∃ e, linkConfig configs'.entries table'.entries = .error e) ∧
      ∀ merged merged', linkConfig configs.entries table.entries = .ok merged →
        linkConfig configs'.entries table'.entries = .ok merged' →
        Same (.table merged) (.table merged') := by
  refine ⟨linkConfig_broken_iff _ _, ?_, ?_, ?_⟩
  · intro merged hmerged
    refine ⟨linkConfig_distinct configs table hmerged, fun keys t ht => ?_⟩
    obtain ⟨m, hm, hlink⟩ := follow_linkConfig hmerged ht
    exact ⟨m, hm, linkConfig_level hlink⟩
  · intro configs' table' hconfigs htable merged hmerged
    exact linkConfig_perm hconfigs htable hmerged
  · intro configs' table' hconfigs htable
    refine ⟨?_, fun merged merged' hm hm' => linkConfig_same hconfigs htable hm hm'⟩
    rw [linkConfig_broken_iff, linkConfig_broken_iff]
    exact ⟨hconfigs.broken htable, hconfigs.symm.broken htable.symm⟩

end Rslinker.Config
