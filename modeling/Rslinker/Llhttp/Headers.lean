import Rslinker.Llhttp.Parser

set_option autoImplicit false

/-! # Maps of headers

`collect` inserts fields into an empty `HashMap<Ascii<String>, String>`, one after the other. Two
fields whose names are equal up to the case of ASCII letters share an entry, so the map has as many
entries as there are fields exactly when the names are distinct in this sense.

What is forwarded of a head are the lines of such maps, one map for each read. So the second half
of the module is about several maps that are drained one after the other, and about the values that
overrides put in the place of the original ones.
-/

namespace Rslinker

theorem asciiEq_comm (a b : Bytes) : asciiEq a b = asciiEq b a := by
  simp only [asciiEq, eq_comm]

/-- Equal names are equal to the same names. -/
theorem asciiEq_congr {a b : Bytes} (h : asciiEq a b) (c : Bytes) : asciiEq a c = asciiEq b c := by
  simp only [asciiEq, decide_eq_true_eq] at h ⊢
  rw [h]

namespace Headers

theorem get_insert (key value name : Bytes) (headers : Headers) :
    (Headers.insert key value headers).get name
      = if asciiEq key name then some value else headers.get name := by
  induction headers with
  | nil =>
      simp only [insert, get, List.find?]
      cases asciiEq key name <;> rfl
  | cons e headers ih =>
      obtain ⟨k, v⟩ := e
      unfold insert
      by_cases hk : asciiEq k key
      · have hname := asciiEq_congr hk name
        simp only [hk, if_true, get, List.find?, hname]
        cases asciiEq key name <;> rfl
      · by_cases hname : asciiEq k name
        · -- the first entry is the one that is asked for, and it is not the one that is inserted
          have hkey : ¬ asciiEq key name := by
            intro hkey
            rw [asciiEq_comm, ← asciiEq_congr hname key] at hkey
            exact hk hkey
          simp [hk, get, List.find?, hname, hkey]
        · have hrest : get ((k, v) :: Headers.insert key value headers) name
              = get (Headers.insert key value headers) name := by
            simp [get, List.find?, hname]
          rw [if_neg hk, hrest, ih]
          simp [get, List.find?, hname]

theorem get_isSome_iff (headers : Headers) (name : Bytes) :
    (headers.get name).isSome ↔ ∃ e ∈ headers, asciiEq e.1 name := by
  simp [get, List.find?_isSome]

/-- An insertion adds one name. -/
theorem exists_insert_iff (key value name : Bytes) (headers : Headers) :
    (∃ e ∈ Headers.insert key value headers, asciiEq e.1 name) ↔
      asciiEq key name ∨ ∃ e ∈ headers, asciiEq e.1 name := by
  rw [← get_isSome_iff, ← get_isSome_iff, get_insert]
  by_cases h : asciiEq key name <;> simp [h]

theorem insert_of_new {key : Bytes} {headers : Headers} (h : ¬ ∃ e ∈ headers, asciiEq e.1 key)
    (value : Bytes) : Headers.insert key value headers = headers ++ [(key, value)] := by
  induction headers with
  | nil => rfl
  | cons e headers ih =>
      rw [List.exists_mem_cons_iff, not_or] at h
      rw [insert, if_neg h.1, ih h.2, List.cons_append]

/-- A key that is there keeps its spelling. -/
theorem names_insert_of_known {key : Bytes} {headers : Headers}
    (h : ∃ e ∈ headers, asciiEq e.1 key) (value : Bytes) :
    (Headers.insert key value headers).map Prod.fst = headers.map Prod.fst := by
  induction headers with
  | nil => simp at h
  | cons e headers ih =>
      unfold insert
      by_cases he : asciiEq e.1 key
      · simp [he]
      · rw [List.exists_mem_cons_iff] at h
        simp [he, ih (h.resolve_left he)]

theorem length_insert_of_known {key : Bytes} {headers : Headers}
    (h : ∃ e ∈ headers, asciiEq e.1 key) (value : Bytes) :
    (Headers.insert key value headers).length = headers.length := by
  have hnames := congrArg List.length (names_insert_of_known h value)
  rwa [List.length_map, List.length_map] at hnames

end Headers

/-- The names are distinct, whatever the case of their letters. -/
def Distinct (fields : List (Bytes × Bytes)) : Prop :=
  fields.Pairwise fun a b => ¬ asciiEq a.1 b.1

/-- What a map holds after the insertion of these fields. -/
def collect (fields : List (Bytes × Bytes)) : Headers :=
  fields.foldl (fun headers e => headers.insert e.1 e.2) []

theorem collect_concat (fields : List (Bytes × Bytes)) (e : Bytes × Bytes) :
    collect (fields ++ [e]) = (collect fields).insert e.1 e.2 := List.foldl_concat ..

theorem exists_collect_iff (fields : List (Bytes × Bytes)) (name : Bytes) :
    (∃ e ∈ collect fields, asciiEq e.1 name) ↔ ∃ e ∈ fields, asciiEq e.1 name := by
  induction fields using List.reverseRecOn with
  | nil => rfl
  | append_singleton fields e ih =>
      rw [collect_concat, Headers.exists_insert_iff, ih]
      simp only [List.mem_append, List.mem_singleton, or_and_right, exists_or, exists_eq_left]
      exact or_comm

theorem distinct_concat (fields : List (Bytes × Bytes)) (e : Bytes × Bytes) :
    Distinct (fields ++ [e]) ↔ Distinct fields ∧ ¬ ∃ f ∈ fields, asciiEq f.1 e.1 := by
  simp [Distinct, List.pairwise_append]

theorem collect_of_distinct {fields : List (Bytes × Bytes)} (h : Distinct fields) :
    collect fields = fields := by
  induction fields using List.reverseRecOn with
  | nil => rfl
  | append_singleton fields e ih =>
      obtain ⟨hfields, hnew⟩ := (distinct_concat fields e).mp h
      rw [← exists_collect_iff] at hnew
      rw [collect_concat, Headers.insert_of_new hnew, ih hfields]

theorem length_collect_le (fields : List (Bytes × Bytes)) :
    (collect fields).length ≤ fields.length := by
  induction fields using List.reverseRecOn with
  | nil => exact Nat.le_refl 0
  | append_singleton fields e ih =>
      rw [collect_concat, List.length_append, List.length_singleton]
      by_cases hold : ∃ f ∈ collect fields, asciiEq f.1 e.1
      · rw [Headers.length_insert_of_known hold]
        omega
      · rw [Headers.insert_of_new hold, List.length_append, List.length_singleton]
        omega

/-- **A map keeps all fields exactly when their names are distinct.** -/
theorem length_collect_eq_iff (fields : List (Bytes × Bytes)) :
    (collect fields).length = fields.length ↔ Distinct fields := by
  constructor
  · intro h
    induction fields using List.reverseRecOn with
    | nil => exact List.Pairwise.nil
    | append_singleton fields e ih =>
        have hle := length_collect_le fields
        rw [collect_concat, List.length_append, List.length_singleton] at h
        have hnew : ¬ ∃ f ∈ collect fields, asciiEq f.1 e.1 := by
          intro hold
          rw [Headers.length_insert_of_known hold] at h
          omega
        rw [Headers.insert_of_new hnew, List.length_append, List.length_singleton] at h
        rw [exists_collect_iff] at hnew
        exact (distinct_concat fields e).mpr ⟨ih (by omega), hnew⟩
  · intro h
    rw [collect_of_distinct h]

/-! ## Lines of headers

A header leaves a map as a line with its name and a value that may have been overridden by name
(`Rewrites`). When do the lines of a map agree with those of the fields that went into it, as
multisets? The names of a map are distinct, so those of the fields must be, too. Behind the fields
`late` of a head the map may get further fields `behind`. They must leave the lines as they are
(`Silent`): have no new name, and no value that shows. -/

theorem asciiEq_self (a : Bytes) : asciiEq a a := by
  simp [asciiEq]

theorem asciiEq_trans {a b c : Bytes} (h : asciiEq a b) (h' : asciiEq b c) : asciiEq a c := by
  rwa [asciiEq_congr h]

/-- What is written for a header has its name, and a value that depends on the name only up to the
case of its letters. -/
structure Rewrites (f : Bytes × Bytes → Bytes × Bytes) : Prop where
  name : ∀ e, (f e).1 = e.1
  value : ∀ a b v, asciiEq a b → (f (a, v)).2 = (f (b, v)).2

/-- The fields `behind` leave no trace in a map with the fields `late`. -/
structure Silent (f : Bytes × Bytes → Bytes × Bytes) (late behind : List (Bytes × Bytes)) : Prop where
  names : ∀ e ∈ behind, ∃ b ∈ late, asciiEq b.1 e.1
  values : ∀ b ∈ late, ∀ v ∈ (collect behind).get b.1, f (b.1, v) = f b

section Lines

variable {f : Bytes × Bytes → Bytes × Bytes} {late behind fields fields' : List (Bytes × Bytes)}

theorem distinct_perm (h : fields.Perm fields') (hdistinct : Distinct fields) : Distinct fields' :=
  h.pairwise hdistinct fun {a b} hab => by rwa [asciiEq_comm]

theorem distinct_names (fields : List (Bytes × Bytes)) :
    Distinct fields ↔ (fields.map Prod.fst).Pairwise fun a b => ¬ asciiEq a b := by
  rw [Distinct, List.pairwise_map]

theorem distinct_map (hf : Rewrites f) : Distinct (fields.map f) ↔ Distinct fields := by
  have hnames : (fields.map f).map Prod.fst = fields.map Prod.fst := by
    simp [Function.comp_def, hf.name]
  rw [distinct_names, distinct_names, hnames]

theorem distinct_collect (fields : List (Bytes × Bytes)) : Distinct (collect fields) := by
  induction fields using List.reverseRecOn with
  | nil => exact .nil
  | append_singleton fields e ih =>
      rw [collect_concat]
      by_cases hold : ∃ g ∈ collect fields, asciiEq g.1 e.1
      · rw [distinct_names, Headers.names_insert_of_known hold, ← distinct_names]
        exact ih
      · rw [Headers.insert_of_new hold]
        exact (distinct_concat _ _).mpr ⟨ih, hold⟩

/-- A name finds its field. -/
theorem get_of_mem (hdistinct : Distinct fields) {e : Bytes × Bytes} (he : e ∈ fields) {name : Bytes}
    (hname : asciiEq e.1 name) : Headers.get fields name = some e.2 := by
  induction fields with
  | nil => cases he
  | cons g fields ih =>
      obtain ⟨hg, hrest⟩ := List.pairwise_cons.mp hdistinct
      rcases List.mem_cons.mp he with rfl | he
      · simp [Headers.get, List.find?, hname]
      · -- the field in front has another name
        have hnot : ¬ asciiEq g.1 name := by
          intro hgname
          refine hg e he (asciiEq_trans hgname ?_)
          rwa [asciiEq_comm]
        have htail := ih hrest he
        simpa [Headers.get, List.find?, hnot] using htail

theorem get_perm (h : fields.Perm fields') (hdistinct : Distinct fields) (name : Bytes) :
    Headers.get fields name = Headers.get fields' name := by
  by_cases hmem : ∃ e ∈ fields, asciiEq e.1 name
  · obtain ⟨e, he, hname⟩ := hmem
    rw [get_of_mem hdistinct he hname,
      get_of_mem (distinct_perm h hdistinct) (h.mem_iff.mp he) hname]
  · have hmem' : ¬ ∃ e ∈ fields', asciiEq e.1 name := by simpa [h.mem_iff] using hmem
    rw [← Headers.get_isSome_iff, Option.not_isSome_iff_eq_none] at hmem hmem'
    rw [hmem, hmem']

/-- The value in a line is that of the map, rewritten. -/
theorem get_map (hf : Rewrites f) (fields : List (Bytes × Bytes)) (name : Bytes) :
    Headers.get (fields.map f) name = (Headers.get fields name).map fun v => (f (name, v)).2 := by
  induction fields with
  | nil => rfl
  | cons e fields ih =>
      by_cases hname : asciiEq e.1 name
      · simp [Headers.get, List.find?, hf.name, hname, hf.value e.1 name e.2 hname]
      · simpa [Headers.get, List.find?, hf.name, hname] using ih

theorem get_collect_append (late behind : List (Bytes × Bytes)) (name : Bytes) :
    (collect (late ++ behind)).get name
      = ((collect behind).get name).or ((collect late).get name) := by
  induction behind using List.reverseRecOn with
  | nil => simp [collect, Headers.get]
  | append_singleton behind e ih =>
      rw [← List.append_assoc, collect_concat, collect_concat, Headers.get_insert, Headers.get_insert,
        ih]
      split <;> rfl

/-- Without new names a map keeps the names that it has. -/
theorem names_collect_append (hdistinct : Distinct late)
    (hnames : ∀ e ∈ behind, ∃ b ∈ late, asciiEq b.1 e.1) :
    (collect (late ++ behind)).map Prod.fst = late.map Prod.fst := by
  induction behind using List.reverseRecOn with
  | nil => rw [List.append_nil, collect_of_distinct hdistinct]
  | append_singleton behind e ih =>
      have hbehind := ih fun g hg => hnames g (List.mem_append_left _ hg)
      rw [← List.append_assoc, collect_concat, Headers.names_insert_of_known, hbehind]
      rw [exists_collect_iff]
      obtain ⟨b, hb, hname⟩ := hnames e (List.mem_append_right _ List.mem_cons_self)
      exact ⟨b, List.mem_append_left _ hb, hname⟩

theorem map_eq_of_names (hnames : fields.map Prod.fst = fields'.map Prod.fst)
    (hf : ∀ e ∈ fields, ∀ e' ∈ fields', e.1 = e'.1 → f e = f e') : fields.map f = fields'.map f := by
  induction fields generalizing fields' with
  | nil =>
      rw [List.map_nil, eq_comm, List.map_eq_nil_iff] at hnames
      rw [hnames]
  | cons e fields ih =>
      cases fields' with
      | nil => cases hnames
      | cons e' fields' =>
          obtain ⟨hname, hrest⟩ := List.cons.inj hnames
          rw [List.map_cons, List.map_cons, hf e List.mem_cons_self e' List.mem_cons_self hname,
            ih hrest fun g hg g' hg' => hf g (List.mem_cons_of_mem _ hg) g' (List.mem_cons_of_mem _ hg')]

/-- **The lines of one read** are those of the fields `late` exactly when these have distinct names
and the fields behind them are silent. -/
theorem collect_append_perm_iff (hf : Rewrites f) :
    ((collect (late ++ behind)).map f).Perm (late.map f) ↔ Distinct late ∧ Silent f late behind := by
  constructor
  · intro hperm
    have hall : Distinct ((collect (late ++ behind)).map f) :=
      (distinct_map hf).mpr (distinct_collect _)
    have hlate : Distinct late := (distinct_map hf).mp (distinct_perm hperm hall)
    have hget : ∀ name, Headers.get ((collect (late ++ behind)).map f) name
        = Headers.get (late.map f) name := get_perm hperm hall
    refine ⟨hlate, ?_, ?_⟩
    · intro e he
      -- the map has an entry of this name, and so the fields have one
      have hmem : ((collect (late ++ behind)).get e.1).isSome := by
        rw [Headers.get_isSome_iff, exists_collect_iff]
        exact ⟨e, List.mem_append_right _ he, asciiEq_self _⟩
      have hsome := hget e.1
      rw [get_map hf, get_map hf] at hsome
      rw [← Headers.get_isSome_iff]
      have hboth := congrArg Option.isSome hsome
      rwa [Option.isSome_map, Option.isSome_map, hmem, eq_comm] at hboth
    · intro b hb v hv
      have hvalue := hget b.1
      rw [get_map hf, get_map hf, get_collect_append, Option.mem_def.mp hv,
        get_of_mem hlate hb (asciiEq_self _)] at hvalue
      refine Prod.ext ?_ (Option.some.inj hvalue)
      rw [hf.name, hf.name]
  · rintro ⟨hlate, hnames, hvalues⟩
    refine List.Perm.of_eq (map_eq_of_names (names_collect_append hlate hnames) ?_)
    intro e he b hb hname
    -- the value is the last one behind the field, or that of the field
    have hget := get_of_mem (distinct_collect _) he (asciiEq_self _)
    rw [get_collect_append, hname, collect_of_distinct hlate,
      get_of_mem hlate hb (asciiEq_self _)] at hget
    obtain ⟨name, value⟩ := e
    obtain rfl : name = b.1 := hname
    cases hbehind : (collect behind).get b.1 with
    | none =>
        rw [hbehind, Option.none_or] at hget
        obtain rfl : b.2 = value := Option.some.inj hget
        rfl
    | some v =>
        rw [hbehind, Option.some_or] at hget
        obtain rfl : v = value := Option.some.inj hget
        exact hvalues b hb v hbehind

/-- Without new names a map is not longer than the fields. -/
theorem length_collect_append_le (hnames : ∀ e ∈ behind, ∃ b ∈ late, asciiEq b.1 e.1) :
    (collect (late ++ behind)).length ≤ late.length := by
  induction behind using List.reverseRecOn with
  | nil =>
      rw [List.append_nil]
      exact length_collect_le late
  | append_singleton behind e ih =>
      have hold : ∃ g ∈ collect (late ++ behind), asciiEq g.1 e.1 := by
        rw [exists_collect_iff]
        obtain ⟨b, hb, hname⟩ := hnames e (List.mem_append_right _ List.mem_cons_self)
        exact ⟨b, List.mem_append_left _ hb, hname⟩
      rw [← List.append_assoc, collect_concat, Headers.length_insert_of_known hold]
      exact ih fun g hg => hnames g (List.mem_append_left _ hg)

theorem length_flatMap_collect_le (batches : List (List (Bytes × Bytes))) :
    (batches.flatMap collect).length ≤ batches.flatten.length := by
  induction batches with
  | nil => exact Nat.le_refl 0
  | cons batch batches ih =>
      rw [List.flatMap_cons, List.flatten_cons, List.length_append, List.length_append]
      exact Nat.add_le_add (length_collect_le batch) ih

/-- A map that loses a field is missing it in the number of lines. -/
theorem length_flatMap_collect_lt {batches : List (List (Bytes × Bytes))}
    (h : ∃ batch ∈ batches, ¬ Distinct batch) :
    (batches.flatMap collect).length < batches.flatten.length := by
  induction batches with
  | nil => simp at h
  | cons batch batches ih =>
      have hbatch := length_collect_le batch
      have hbatches := length_flatMap_collect_le batches
      rw [List.flatMap_cons, List.flatten_cons, List.length_append, List.length_append]
      rw [List.exists_mem_cons_iff] at h
      rcases h with hlost | hlost
      · rw [← length_collect_eq_iff] at hlost
        omega
      · have hlt := ih hlost
        omega

theorem flatMap_collect_of_distinct {batches : List (List (Bytes × Bytes))}
    (h : ∀ batch ∈ batches, Distinct batch) : batches.flatMap collect = batches.flatten := by
  rw [← List.flatMap_id]
  exact List.flatMap_congr fun batch hbatch => collect_of_distinct (h batch hbatch)

/-- **The lines of all reads.** They are those of the fields when no batch has a name twice and the
fields behind the last one are silent. The other case is a coincidence: an earlier map has lost a
field, and a new name behind the last batch makes up for it. -/
theorem lines_perm_iff (hf : Rewrites f) (late behind : List (Bytes × Bytes))
    (early : List (List (Bytes × Bytes))) :
    ((early.flatMap collect ++ collect (late ++ behind)).map f).Perm
        ((early.flatten ++ late).map f) ↔
      ((∀ batch ∈ early ++ [late], Distinct batch) ∧ Silent f late behind) ∨
        ((∃ batch ∈ early, ¬ Distinct batch) ∧ (∃ e ∈ behind, ∀ b ∈ late, ¬ asciiEq b.1 e.1) ∧
          ((early.flatMap collect ++ collect (late ++ behind)).map f).Perm
            ((early.flatten ++ late).map f)) := by
  have hsplit : (∀ batch ∈ early ++ [late], Distinct batch) ↔
      (∀ batch ∈ early, Distinct batch) ∧ Distinct late := by
    simp [or_imp, forall_and]
  constructor
  · intro hperm
    by_cases hearly : ∀ batch ∈ early, Distinct batch
    · -- the earlier lines cancel out
      have hlast := hperm
      rw [flatMap_collect_of_distinct hearly, List.map_append, List.map_append,
        List.perm_append_left_iff, collect_append_perm_iff hf] at hlast
      exact Or.inl ⟨hsplit.mpr ⟨hearly, hlast.1⟩, hlast.2⟩
    · have hlost : ∃ batch ∈ early, ¬ Distinct batch := by simpa using hearly
      refine Or.inr ⟨hlost, ?_, hperm⟩
      by_contra hnew
      have hnames : ∀ e ∈ behind, ∃ b ∈ late, asciiEq b.1 e.1 := by simpa using hnew
      have hlt := length_flatMap_collect_lt hlost
      have hle := length_collect_append_le hnames
      have hlength := hperm.length_eq
      simp only [List.length_map, List.length_append] at hlength
      omega
  · rintro (⟨hall, hsilent⟩ | ⟨-, -, hperm⟩)
    · obtain ⟨hearly, hlate⟩ := hsplit.mp hall
      rw [flatMap_collect_of_distinct hearly, List.map_append, List.map_append]
      exact ((collect_append_perm_iff hf).mpr ⟨hlate, hsilent⟩).append_left _
    · exact hperm

end Lines

end Rslinker
