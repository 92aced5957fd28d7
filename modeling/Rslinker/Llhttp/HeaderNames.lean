import Rslinker.Basic.ScannerWords
import Rslinker.Llhttp.Machine

set_option autoImplicit false

/-! # The names of headers

llhttp compares the name of a header with the few names that it knows, byte by byte and without
regard to the case of letters. What it finds is the header state, and all that it does with the value
of the header depends on this state.

The result is the function `nameState`, from the name to the number of its header state, which is 0
for all names that are not known.
-/

namespace Rslinker.Internal

open Scan

/-- The names that llhttp knows, in lower case, with their header states. -/
def knownNames : List (Bytes × Nat) :=
  [(word ['c', 'o', 'n', 'n', 'e', 'c', 't', 'i', 'o', 'n'], 1),
    (word ['p', 'r', 'o', 'x', 'y', '-', 'c', 'o', 'n', 'n', 'e', 'c', 't', 'i', 'o', 'n'], 1),
    (word ['c', 'o', 'n', 't', 'e', 'n', 't', '-', 'l', 'e', 'n', 'g', 't', 'h'], 2),
    (word ['t', 'r', 'a', 'n', 's', 'f', 'e', 'r', '-', 'e', 'n', 'c', 'o', 'd', 'i', 'n', 'g'], 3),
    (word ['u', 'p', 'g', 'r', 'a', 'd', 'e'], 4)]

/-- The entry of a table for a word in lower case, 0 without one. -/
def codeOf (table : List (Bytes × Nat)) (w : Bytes) : Nat :=
  ((table.find? fun e => e.1 = w).map Prod.snd).getD 0

/-- The header state of a name. -/
def nameState (name : Bytes) : Nat := codeOf knownNames (name.map toLower)

theorem mem_of_codeOf {table : List (Bytes × Nat)} {w : Bytes} (h : codeOf table w ≠ 0) :
    (w, codeOf table w) ∈ table := by
  unfold codeOf at h ⊢
  cases hfind : table.find? fun e => e.1 = w with
  | none => simp [hfind] at h
  | some e =>
      have hmem := List.mem_of_find?_eq_some hfind
      have hw : e.1 = w := by simpa using List.find?_some hfind
      subst hw
      exact hmem

/-- No other name of the table goes on behind `read`. -/
theorem codeOf_eq_zero {table : List (Bytes × Nat)} {read w rest : Bytes}
    (htable : ∀ e ∈ table, read <+: e.1 → read ++ w <+: e.1) (h : ¬ w <+: rest) :
    codeOf table (read ++ rest) = 0 := by
  by_contra hne
  have hstarts := htable _ (mem_of_codeOf hne) (List.prefix_append read rest)
  exact h ((List.prefix_append_right_inj read).mp hstarts)

/-! ## Reading a name

The nodes form a tree of prefixes: a letter selects which names are left, and then the rest of one
name is compared at once. The first difference leads to the node for all other names. `ReadsName`
is the statement for a node in the middle of this tree, with the part of the name that is in front
of it. -/

def IsToken (x : Bytes) : Prop := ∀ b ∈ x, tokenBytes.has b

instance (x : Bytes) : Decidable (IsToken x) :=
  decidable_of_iff (x.all fun b => tokenBytes.has b) List.all_eq_true

theorem IsToken.of_cons {b : UInt8} {x : Bytes} (h : IsToken (b :: x)) :
    tokenBytes.has b ∧ IsToken x :=
  ⟨h b List.mem_cons_self, fun b' hb' => h b' (List.mem_cons_of_mem b hb')⟩

theorem IsToken.right {x y : Bytes} (h : IsToken (x ++ y)) : IsToken y :=
  fun b hb => h b (List.mem_append_right x hb)

/-- The rest of a name is read from a node on, in front of which is the part `read` of the name. -/
def ReadsName (l : Label) (read : Bytes) : Prop :=
  ∀ (d : Internal) (rest y : Bytes), IsToken rest →
    Steps machine ⟨l, 0, some .headerField, d⟩ (rest ++ 58 :: y)
      (eatenAll (some .headerField) rest ++ [.report .headerFieldComplete])
      ⟨.invokeLoadHeaderState, 0, none,
        { d with headerState := codeOf knownNames (read ++ rest.map toLower) }⟩ y

/-- Behind the first difference from a name that is known. -/
theorem general_steps (d : Internal) {rest : Bytes} (h : IsToken rest) (y : Bytes) :
    Steps machine ⟨.headerFieldGeneral, 0, some .headerField, d⟩ (rest ++ 58 :: y)
      (eatenAll (some .headerField) rest ++ [.report .headerFieldComplete])
      ⟨.invokeLoadHeaderState, 0, none, d⟩ y := by
  have hglide : ∀ b, tokenBytes.has b →
      machine.glide 1 .headerFieldGeneral b = some .headerFieldGeneral :=
    Machine.glide_all rfl 0 rfl rfl
  have hloop := Machine.loop_steps (fun b hb => hglide b (h b hb)) (some .headerField) d (58 :: y)
  exact hloop.trans (Machine.steps_of_follow 4 rfl)

/-- The name is not known. -/
theorem other_steps {l : Label} (hnode : node l = .invoke updateHeaderState1 [] .headerFieldGeneral)
    (d : Internal) {rest : Bytes} (h : IsToken rest) (y : Bytes) :
    Steps machine ⟨l, 0, some .headerField, d⟩ (rest ++ 58 :: y)
      (eatenAll (some .headerField) rest ++ [.report .headerFieldComplete])
      ⟨.invokeLoadHeaderState, 0, none, { d with headerState := 0 }⟩ y := by
  have hinvoke := Machine.invoke_steps (m := machine) hnode (some .headerField) d (rest ++ 58 :: y)
  exact hinvoke.trans (general_steps _ h y)

/-- A known name has been read. -/
theorem ReadsName.found {k : Nat} {read : Bytes} (hcode : codeOf knownNames read = k)
    (htable : ∀ e ∈ knownNames, read <+: e.1 → read = e.1) :
    ReadsName (.invokeStoreHeaderState k) read := by
  intro d rest y hrest
  have hstore : Steps machine ⟨.invokeStoreHeaderState k, 0, some .headerField, d⟩ (rest ++ 58 :: y) []
      ⟨.headerFieldColon, 0, some .headerField, { d with headerState := k }⟩ (rest ++ 58 :: y) :=
    .of_quiet rfl
  rcases rest with _ | ⟨b, rest⟩
  · rw [List.map_nil, List.append_nil, hcode]
    exact hstore.trans (Machine.steps_of_follow 3 rfl)
  · have hother : codeOf knownNames (read ++ (b :: rest).map toLower) = 0 := by
      by_contra hne
      have heq := htable _ (mem_of_codeOf hne) (List.prefix_append _ _)
      simp at heq
    have hskip : ∀ b, tokenBytes.has b →
        machine.skip 1 .headerFieldColon b = .invokeUpdateHeaderState10 :=
      Machine.skip_all rfl 2 rfl rfl
    have hgo := Machine.skip_steps (hskip b hrest.of_cons.1) (some Span.headerField)
      { d with headerState := k } (rest ++ 58 :: y)
    rw [hother]
    exact hstore.trans (hgo.trans (other_steps rfl _ hrest y))

/-- A word is compared with what comes. -/
theorem ReadsName.sequence {l hit : Label} {read w : Bytes}
    (hnode : node l = .sequence toLower w hit .invokeUpdateHeaderState11)
    (hw : 0 < w.length ∧ 58 ∉ w)
    (htable : ∀ e ∈ knownNames, read <+: e.1 → read ++ w <+: e.1)
    (h : ReadsName hit (read ++ w)) : ReadsName l read := by
  intro d rest y hrest
  rcases steps_sequence (m := machine) (c := ⟨l, 0, some .headerField, d⟩) (x := rest) (b := 58)
      hnode hw.1 hw.2 y with ⟨u, v, rfl, hu, hsteps⟩ | ⟨hmiss, u, v, rfl, hsteps⟩
  · have hgo := h d v y hrest.right
    rw [List.drop_zero] at hu
    rw [List.append_assoc, ← hu, ← List.map_append] at hgo
    have htrans := hsteps.trans hgo
    simpa using htrans
  · rw [codeOf_eq_zero htable hmiss]
    have htrans := hsteps.trans (other_steps rfl d hrest.right y)
    simpa using htrans

/-- The next letter decides which names are left. -/
theorem ReadsName.switch {l : Label} {read : Bytes} (letters : List (UInt8 × Label))
    (hnode : node l = .switch toLower
      ((letters.map fun c => (c.1, eat c.2)).map fun c => ([(c.1, c.1)], c.2))
      (peek .invokeUpdateHeaderState11))
    (hcolon : 58 ∉ letters.map Prod.fst)
    (htable : ∀ e ∈ knownNames, read <+: e.1 → ∃ c ∈ letters, read ++ [c.1] <+: e.1)
    (h : ∀ c ∈ letters, ReadsName c.2 (read ++ [c.1])) : ReadsName l read := by
  intro d rest y hrest
  rcases rest with _ | ⟨b, rest⟩
  · have hnone : codeOf knownNames (read ++ ([] : Bytes).map toLower) = 0 := by
      by_contra hne
      obtain ⟨c, -, hc⟩ := htable _ (mem_of_codeOf hne) (List.prefix_append _ _)
      have hlength := hc.length_le
      simp at hlength
    have hskip : machine.skip 1 l 58 = .invokeUpdateHeaderState11 := by
      rcases choose_bytes (letters.map fun c => (c.1, eat c.2)) (peek .invokeUpdateHeaderState11) 58
        with ⟨e, hmem, -⟩ | ⟨-, hchoose⟩
      · obtain ⟨c, hc, heq⟩ := List.mem_map.mp hmem
        exact absurd ((Prod.mk.inj heq).1 ▸ List.mem_map_of_mem hc) hcolon
      · exact Machine.skip_of_choose (m := machine) hnode hchoose
    rw [hnone]
    exact (Machine.skip_steps hskip (some Span.headerField) d y).trans (other_steps rfl d hrest y)
  · obtain ⟨hb, htoken⟩ := hrest.of_cons
    rcases choose_bytes (letters.map fun c => (c.1, eat c.2)) (peek .invokeUpdateHeaderState11)
      (toLower b) with ⟨e, hmem, hchoose⟩ | ⟨hnot, hchoose⟩
    · obtain ⟨c, hc, heq⟩ := List.mem_map.mp hmem
      obtain ⟨hletter, rfl⟩ := Prod.mk.inj heq
      have hglide := Machine.glide_of_choose (m := machine) hnode hchoose
      have hgo := h c hc d rest y htoken
      have hcode : read ++ [c.1] ++ rest.map toLower = read ++ (b :: rest).map toLower := by
        simp [hletter]
      rw [hcode] at hgo
      exact (Machine.glide_steps hglide (some Span.headerField) d (rest ++ 58 :: y)).trans hgo
    · have hnone : codeOf knownNames (read ++ (b :: rest).map toLower) = 0 := by
        by_contra hne
        obtain ⟨c, hc, hstarts⟩ := htable _ (mem_of_codeOf hne) (List.prefix_append _ _)
        rw [List.map_cons, List.prefix_append_right_inj, List.cons_prefix_cons] at hstarts
        refine hnot (hstarts.1 ▸ ?_)
        rw [List.map_map]
        exact List.mem_map_of_mem hc
      have hskip := Machine.skip_of_choose (m := machine) hnode hchoose
      rw [hnone]
      exact (Machine.skip_steps hskip (some Span.headerField) d (rest ++ 58 :: y)).trans
        (other_steps rfl d hrest y)

/-- **A name is read**, and what is known of it becomes the header state. -/
theorem readsName : ReadsName .headerField [] := by
  have hconnection : ReadsName .headerField3 (word ['c', 'o', 'n', 'n']) :=
    .sequence rfl (by decide) (by decide) (.found rfl (by decide))
  have hlength : ReadsName .headerField4 (word ['c', 'o', 'n', 't']) :=
    .sequence rfl (by decide) (by decide) (.found rfl (by decide))
  have hcon : ReadsName .headerField2 (word ['c', 'o', 'n']) := by
    refine .switch [(110, .headerField3), (116, .headerField4)] rfl (by decide) (by decide) ?_
    rintro _ (_ | ⟨_, _ | ⟨_, _ | _⟩⟩)
    · exact hconnection
    · exact hlength
  have hc : ReadsName .headerField1 (word ['c']) := .sequence rfl (by decide) (by decide) hcon
  have hp : ReadsName .headerField5 (word ['p']) :=
    .sequence rfl (by decide) (by decide) (.found rfl (by decide))
  have ht : ReadsName .headerField6 (word ['t']) :=
    .sequence rfl (by decide) (by decide) (.found rfl (by decide))
  have hu : ReadsName .headerField7 (word ['u']) :=
    .sequence rfl (by decide) (by decide) (.found rfl (by decide))
  refine .switch [(99, .headerField1), (112, .headerField5), (116, .headerField6),
    (117, .headerField7)] rfl (by decide) (by decide) ?_
  rintro _ (_ | ⟨_, _ | ⟨_, _ | ⟨_, _ | ⟨_, _ | _⟩⟩⟩⟩)
  · exact hc
  · exact hp
  · exact ht
  · exact hu

/-- **The name of a header.** It is called back as it is, and it decides on the header state. -/
theorem headerField_steps (d : Internal) {name : Bytes} (h : IsToken name) (y : Bytes) :
    Steps machine ⟨.headerField, 0, some .headerField, d⟩ (name ++ 58 :: y)
      (eatenAll (some .headerField) name ++ [.report .headerFieldComplete])
      ⟨.invokeLoadHeaderState, 0, none, { d with headerState := nameState name }⟩ y :=
  readsName d name y h

end Rslinker.Internal
