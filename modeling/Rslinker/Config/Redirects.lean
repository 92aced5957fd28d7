import Rslinker.Config.Merge

set_option autoImplicit false

/-! # Which redirects `merge_config` resolves

`merge_config` takes the templates from the `config` entry of a document and links its other
top-level tables. A client configuration has its clients and its links in arrays of tables, which
`link_config` does not enter, and what a template brings in is not linked again.

So a redirect is resolved only when it is reached through tables and when its template has no
redirect, neither its own nor in a value that the level takes from it. That this is the exact
condition is shown for all documents on which `merge_config` succeeds; when it fails is a matter of
`Merge.lean`.
-/

namespace Rslinker.Config

/-- `merge_config`, after the document has been parsed. -/
def mergeConfig (document : Table) : Except LinkError Table :=
  let configs := (Value.get document "config").getD (.table [])
  let table := KeyedList.erase document "config"
  match configs.asTable with
  | none => .error .notTable
  | some configs => linkEntries configs table

def configsOf (document : Table) : Table :=
  ((Value.get document "config").bind Value.asTable).getD []

/-! ## What there is to resolve

A redirect is left anywhere in a document, also in the tables of an array, when a table there has
the entry. Where it is gone the table must have what the template has, for removing the entry alone
would not resolve it. -/

/-- No table in the value, through tables or arrays, has a `redirect` entry. -/
def RedirectFree (v : Value) : Prop :=
  ∀ path t, v.place path = some (.table t) → Value.get t "redirect" = none

/-- No redirect is left, and every table that had one has the keys of its template. -/
structure Resolved (document result : Table) : Prop where
  free : ∀ key v, Value.get result key = some v → RedirectFree v
  filled : ∀ key v path t u, key ≠ "config" → Value.get document key = some v →
    v.place path = some (.table t) → template (configsOf document) t = some u →
    ∃ v' t', Value.get result key = some v' ∧ v'.place path = some (.table t') ∧
      ∀ k, k ≠ "redirect" → (Value.get u k).isSome → (Value.get t' k).isSome

/-- The redirects in a top-level value are in reach of `link_config`. -/
structure InReach (configs : Table) (v : Value) : Prop where
  /-- None is in an array. -/
  arrays : ∀ keys vs, v.follow keys = some (.array vs) → RedirectFree (.array vs)
  /-- None comes with a template that is followed. -/
  templates : ∀ keys t u, v.follow keys = some (.table t) → template configs t = some u →
    Value.get u "redirect" = none ∧
      ∀ k w, Value.get u k = some w → Value.get t k = none → RedirectFree w

section Free

variable {configs t m u : Table} {v w : Value} {vs : List Value}

theorem redirectFree_table : RedirectFree (.table t) ↔
    Value.get t "redirect" = none ∧ ∀ k v, Value.get t k = some v → RedirectFree v := by
  constructor
  · intro h
    refine ⟨h [] t rfl, fun k v hv path u hu => h (.key k :: path) u ?_⟩
    rw [Value.place_table, hv]
    exact hu
  · rintro ⟨hnone, hvalues⟩ path u hu
    match path with
    | [] =>
        cases hu
        exact hnone
    | .key k :: path =>
        obtain ⟨v, hv, hu⟩ := Option.bind_eq_some_iff.mp hu
        exact hvalues k v hv path u hu
    | .index i :: path => cases hu

theorem redirectFree_plain (h : v.isPlain = true) : RedirectFree v := by
  intro path u hu
  cases path with
  | nil =>
      obtain rfl : v = .table u := Option.some.inj ((Value.place_nil v).symm.trans hu)
      cases h
  | cons s path =>
      rw [Value.place_plain h] at hu
      cases hu

theorem inReach_plain (h : v.isPlain = true) : InReach configs v := by
  have hne : ∀ t, v ≠ .table t := by
    rintro t rfl
    cases h
  constructor
  · intro keys vs hvs
    cases keys with
    | nil =>
        obtain rfl : v = .array vs := Option.some.inj ((Value.follow_nil v).symm.trans hvs)
        cases h
    | cons k keys =>
        rw [Value.follow_of_not_table hne] at hvs
        cases hvs
  · intro keys t u ht
    cases keys with
    | nil => exact absurd (Option.some.inj ((Value.follow_nil v).symm.trans ht)) (hne t)
    | cons k keys =>
        rw [Value.follow_of_not_table hne] at ht
        cases ht

theorem inReach_array : InReach configs (.array vs) ↔ RedirectFree (.array vs) := by
  constructor
  · exact fun h => h.arrays [] vs rfl
  · intro h
    constructor
    · intro keys vs' hvs
      cases keys with
      | nil =>
          cases hvs
          exact h
      | cons k keys => cases hvs
    · intro keys t u ht
      cases keys with
      | nil => cases ht
      | cons k keys => cases ht

theorem inReach_table : InReach configs (.table t) ↔
    (∀ u, template configs t = some u → Value.get u "redirect" = none ∧
      ∀ k w, Value.get u k = some w → Value.get t k = none → RedirectFree w) ∧
    ∀ k v, Value.get t k = some v → InReach configs v := by
  constructor
  · intro h
    refine ⟨fun u hu => h.templates [] t u rfl hu, fun k v hv => ⟨?_, ?_⟩⟩
    · intro keys vs hvs
      apply h.arrays (k :: keys) vs
      rw [Value.follow_table, hv]
      exact hvs
    · intro keys t' u ht' hu
      apply h.templates (k :: keys) t' u ?_ hu
      rw [Value.follow_table, hv]
      exact ht'
  · rintro ⟨htemplate, hvalues⟩
    constructor
    · intro keys vs hvs
      cases keys with
      | nil => cases hvs
      | cons k keys =>
          obtain ⟨v, hv, hvs⟩ := Option.bind_eq_some_iff.mp hvs
          exact (hvalues k v hv).arrays keys vs hvs
    · intro keys t' u ht' hu
      cases keys with
      | nil =>
          cases ht'
          exact htemplate u hu
      | cons k keys =>
          obtain ⟨v, hv, ht'⟩ := Option.bind_eq_some_iff.mp ht'
          exact (hvalues k v hv).templates keys t' u ht' hu

end Free

/-! ## Linking a value

By induction on the tree of the value. An array is left as it is, so all redirects in it remain; a
table has none left when none remains in its entries and none comes from the template. -/

section Link

variable {configs t m u : Table} {v w : Value} {vs : List Value}

/-- **Exactly when linking a value leaves no redirect in it.** -/
theorem redirectFree_linkValue_iff (h : linkValue configs v = .ok w) :
    RedirectFree w ↔ InReach configs v := by
  induction v using Value.tree_induction generalizing w with
  | plain v hplain =>
      rw [linkValue_of_not_table (by rintro t rfl; cases hplain)] at h
      cases h
      exact iff_of_true (redirectFree_plain hplain) (inReach_plain hplain)
  | array vs _ =>
      rw [linkValue_of_not_table (by simp)] at h
      cases h
      exact inReach_array.symm
  | table t ih =>
      obtain ⟨t', m, heq, rfl, hm⟩ | ⟨hne, -⟩ := linkValue_ok h
      · cases heq
        rw [redirectFree_table, inReach_table, (get_linkConfig hm "redirect").1 (Or.inl rfl)]
        constructor
        · rintro ⟨hnone, hfree⟩
          refine ⟨fun u hu => ⟨?_, fun k w hw hk => ?_⟩, fun k v hv => ?_⟩
          · rw [hu] at hnone
            exact hnone
          · -- what the template adds is in the result as it is
            apply hfree k w
            rw [(get_linkConfig hm k).1 (Or.inr hk), hu]
            exact hw
          · by_cases hk : k = "redirect"
            · subst hk
              obtain ⟨name, u, rfl, -⟩ := names_of_linkConfig hm hv
              exact inReach_plain rfl
            · obtain ⟨w, hw, hget⟩ := (get_linkConfig hm k).2 v hk hv
              exact (ih k v (KeyedList.mem_of_get hv) hw).mp (hfree k w hget)
        · rintro ⟨htemplate, hreach⟩
          refine ⟨?_, fun k w hw => ?_⟩
          · -- the entry itself has been removed; only the template could bring a new one
            rcases hu : template configs t with _ | u
            · rfl
            · exact (htemplate u hu).1
          · by_cases hadded : k = "redirect" ∨ Value.get t k = none
            · rw [(get_linkConfig hm k).1 hadded] at hw
              obtain ⟨u, hu, hw⟩ := Option.bind_eq_some_iff.mp hw
              rcases hadded with rfl | hk
              · cases (htemplate u hu).1.symm.trans hw
              · exact (htemplate u hu).2 k w hw hk
            · obtain ⟨hk, hsome⟩ := not_or.mp hadded
              obtain ⟨v, hv⟩ := Option.ne_none_iff_exists'.mp hsome
              obtain ⟨w', hw', hget⟩ := (get_linkConfig hm k).2 v hk hv
              obtain rfl : w' = w := Option.some.inj (hget.symm.trans hw)
              exact (ih k v (KeyedList.mem_of_get hv) hw').mpr (hreach k v hv)
      · exact absurd rfl (hne t)

/-- A level has all keys of its template. -/
theorem isSome_of_template (hm : linkConfig configs t = .ok m) (hu : template configs t = some u)
    {k : String} (hk : k ≠ "redirect") (hsome : (Value.get u k).isSome) :
    (Value.get m k).isSome := by
  rcases hv : Value.get t k with _ | v
  · rw [(get_linkConfig hm k).1 (Or.inr hv), hu]
    exact hsome
  · obtain ⟨w, -, hget⟩ := (get_linkConfig hm k).2 v hk hv
    rw [hget]
    rfl

/-- A table with a redirect has been filled in, unless it has been left as it is. -/
theorem filled_of_linkValue {path : List Step} (h : linkValue configs v = .ok w)
    (hfree : RedirectFree w) (ht : v.place path = some (.table t))
    (hu : template configs t = some u) :
    ∃ t', w.place path = some (.table t') ∧
      ∀ k, k ≠ "redirect" → (Value.get u k).isSome → (Value.get t' k).isSome := by
  induction path generalizing v w with
  | nil =>
      obtain rfl : v = .table t := Option.some.inj ((Value.place_nil v).symm.trans ht)
      obtain ⟨t', m, heq, rfl, hm⟩ | ⟨hne, -⟩ := linkValue_ok h
      · cases heq
        exact ⟨m, rfl, fun k hk hsome => isSome_of_template hm hu hk hsome⟩
      · exact absurd rfl (hne t)
  | cons s path ih =>
      obtain ⟨t₀, m₀, rfl, rfl, hm⟩ | ⟨-, rfl⟩ := linkValue_ok h
      · cases s with
        | key k =>
            obtain ⟨v₁, hv₁, ht⟩ := Option.bind_eq_some_iff.mp ht
            -- the table is not behind the entry `redirect`, which is a string
            have hk : k ≠ "redirect" := by
              rintro rfl
              obtain ⟨name, r, rfl, -⟩ := names_of_linkConfig hm hv₁
              cases path with
              | nil => cases ht
              | cons s path =>
                  rw [Value.place_plain rfl] at ht
                  cases ht
            obtain ⟨w₁, hw₁, hget⟩ := (get_linkConfig hm k).2 v₁ hk hv₁
            obtain ⟨t', ht', hkeys⟩ := ih hw₁ ((redirectFree_table.mp hfree).2 k w₁ hget) ht
            refine ⟨t', ?_, hkeys⟩
            rw [Value.place_table, hget]
            exact ht'
        | index i => cases ht
      · -- an array is left as it is, so the entry would still be there
        obtain ⟨name, hname, -⟩ := template_eq_some.mp hu
        cases (hfree _ t ht).symm.trans hname

end Link

/-! ## The whole document -/

section Document

variable {document result : Table} {key : String} {v w : Value}

theorem linkEntries_of_mergeConfig (h : mergeConfig document = .ok result) :
    linkEntries (configsOf document) (KeyedList.erase document "config") = .ok result := by
  unfold mergeConfig at h
  simp only at h
  split at h
  · cases h
  · case h_2 configs hconfigs =>
      have hof : configsOf document = configs := by
        unfold configsOf
        rcases hget : Value.get document "config" with _ | v
        · rw [hget] at hconfigs
          exact Option.some.inj hconfigs
        · rw [hget] at hconfigs
          have htable : v.asTable = some configs := hconfigs
          rw [Option.bind_some, htable, Option.getD_some]
      rw [hof]
      exact h

/-- What becomes of the top-level entries. -/
theorem get_mergeConfig (h : mergeConfig document = .ok result) (key : String) :
    (key = "config" ∨ Value.get document key = none → Value.get result key = none) ∧
      ∀ v, key ≠ "config" → Value.get document key = some v →
        ∃ w, linkValue (configsOf document) v = .ok w ∧ Value.get result key = some w := by
  have hentries := linkEntries_of_mergeConfig h
  rw [linkEntries_eq] at hentries
  obtain ⟨hnone, hsome⟩ := KeyedList.get_mapValues (k := key) hentries
  constructor
  · intro hkey
    apply hnone
    by_cases hconfig : key = "config"
    · rw [hconfig, KeyedList.get_erase_self]
    · rw [KeyedList.get_erase_of_ne hconfig]
      exact hkey.resolve_left hconfig
  · intro v hconfig hv
    apply hsome v
    rw [KeyedList.get_erase_of_ne hconfig]
    exact hv

end Document

/-- **Exactly when `merge_config` resolves all redirects**, for every document on which it succeeds:
no redirect is in an array, and no template that is followed has a redirect itself or brings one in
a value that it adds. -/
theorem mergeConfig_resolved_iff {document : Map} {result : Table}
    (h : mergeConfig document.entries = .ok result) :
    Resolved document.entries result ↔
      ∀ key v, key ≠ "config" → Value.get document.entries key = some v →
        InReach (configsOf document.entries) v := by
  constructor
  · intro hresolved key v hkey hv
    obtain ⟨w, hw, hget⟩ := (get_mergeConfig h key).2 v hkey hv
    exact (redirectFree_linkValue_iff hw).mp (hresolved.free key w hget)
  · intro hreach
    have hfree : ∀ key w, Value.get result key = some w → RedirectFree w := by
      intro key w hw
      obtain ⟨hnone, hsome⟩ := get_mergeConfig h key
      by_cases hlost : key = "config" ∨ Value.get document.entries key = none
      · rw [hnone hlost] at hw
        cases hw
      · obtain ⟨hkey, hne⟩ := not_or.mp hlost
        obtain ⟨v, hv⟩ := Option.ne_none_iff_exists'.mp hne
        obtain ⟨w', hw', hget⟩ := hsome v hkey hv
        obtain rfl : w' = w := Option.some.inj (hget.symm.trans hw)
        exact (redirectFree_linkValue_iff hw').mpr (hreach key v hkey hv)
    refine ⟨hfree, fun key v path t u hkey hv ht hu => ?_⟩
    obtain ⟨w, hw, hget⟩ := (get_mergeConfig h key).2 v hkey hv
    obtain ⟨t', ht', hkeys⟩ := filled_of_linkValue hw (hfree key w hget) ht hu
    exact ⟨w, t', hget, ht', hkeys⟩

/-! ## A client and a server

The two kinds of documents that the program reads. The tables of `[[client]]` are an array, and a
redirect in one of them is not resolved; `[server]` is a table, and a redirect in it is. -/

/-- The distinct keys of a literal map. -/
theorem distinct_literal {t : Table} (h : KeyedList.Distinct t)
    (hv : ∀ e ∈ t, e.2.Distinct) : (Value.table t).Distinct :=
  Value.distinct_table h fun _ _ hget => hv _ (KeyedList.mem_of_get hget)

def base : Value := .table [("base", .table [("retry_times", .integer 3)])]

def redirected : Value := .table [("port", .integer 33445), ("redirect", .string "base")]

theorem base_distinct : base.Distinct := by
  refine distinct_literal (by simp [KeyedList.Distinct]) ?_
  simp only [List.mem_singleton, forall_eq]
  refine distinct_literal (by simp [KeyedList.Distinct]) ?_
  simp only [List.mem_singleton, forall_eq]
  exact Value.distinct_plain rfl

theorem redirected_distinct : redirected.Distinct := by
  refine distinct_literal (by simp [KeyedList.Distinct]) ?_
  simp only [List.mem_cons, List.not_mem_nil, or_false, forall_eq_or_imp, forall_eq]
  exact ⟨Value.distinct_plain rfl, Value.distinct_plain rfl⟩

def clientDocument : Map where
  entries := [("config", base), ("client", .array [redirected])]
  distinct := by
    refine distinct_literal (by simp [KeyedList.Distinct]) ?_
    simp [base_distinct, Value.distinct_array, redirected_distinct]

def serverDocument : Map where
  entries := [("config", base), ("server", redirected)]
  distinct := by
    refine distinct_literal (by simp [KeyedList.Distinct]) ?_
    simp [base_distinct, redirected_distinct]

theorem inReach_redirected : InReach (configsOf serverDocument.entries) redirected := by
  rw [redirected, inReach_table]
  constructor
  · intro u hu
    have htemplate : template (configsOf serverDocument.entries)
        [("port", .integer 33445), ("redirect", .string "base")]
          = some [("retry_times", .integer 3)] := by rfl
    obtain rfl : [("retry_times", Value.integer 3)] = u := Option.some.inj (htemplate.symm.trans hu)
    refine ⟨rfl, fun k w hw _ => ?_⟩
    have hmem := KeyedList.mem_of_get hw
    simp only [List.mem_singleton, Prod.mk.injEq] at hmem
    obtain ⟨-, rfl⟩ := hmem
    exact redirectFree_plain rfl
  · intro k v hv
    have hmem := KeyedList.mem_of_get hv
    simp only [List.mem_cons, Prod.mk.injEq, List.not_mem_nil, or_false] at hmem
    rcases hmem with ⟨-, rfl⟩ | ⟨-, rfl⟩
    · exact inReach_plain rfl
    · exact inReach_plain rfl

/-- The redirect of a client is not resolved: its table is in an array. -/
theorem not_resolved_client :
    mergeConfig clientDocument.entries = .ok [("client", .array [redirected])] ∧
      ¬ Resolved clientDocument.entries [("client", .array [redirected])] := by
  refine ⟨by rfl, fun h => ?_⟩
  have hleft := h.free "client" _ rfl [.index 0] _ rfl
  exact absurd hleft (by decide)

/-- The redirect of the server is. -/
theorem mergeConfig_resolved_iff_server :
    mergeConfig serverDocument.entries
        = .ok [("server", .table [("port", .integer 33445), ("retry_times", .integer 3)])] ∧
      Resolved serverDocument.entries
        [("server", .table [("port", .integer 33445), ("retry_times", .integer 3)])] := by
  have hmerge : mergeConfig serverDocument.entries
      = .ok [("server", .table [("port", .integer 33445), ("retry_times", .integer 3)])] := by rfl
  refine ⟨hmerge, (mergeConfig_resolved_iff hmerge).mpr fun key v hkey hv => ?_⟩
  have hmem : (key, v) ∈ serverDocument.entries := KeyedList.mem_of_get hv
  simp only [serverDocument, List.mem_cons, Prod.mk.injEq, List.not_mem_nil, or_false] at hmem
  rcases hmem with ⟨rfl, -⟩ | ⟨-, rfl⟩
  · exact absurd rfl hkey
  · exact inReach_redirected

end Rslinker.Config
