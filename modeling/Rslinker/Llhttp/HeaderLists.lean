import Rslinker.Llhttp.HeaderNames
import Rslinker.Llhttp.HeaderValues
import Mathlib.Data.List.DropRight

set_option autoImplicit false

/-! # Lists in the values of headers

The values of `Connection` and `Transfer-Encoding` are lists with commas. llhttp compares their
elements with the words that it knows; blanks in front of a word and spaces behind it do not count,
anything else does.

Both lists are read by nodes that return to the same place behind a comma, so the proofs go by
induction on the elements. What an element does is known at its end only: a word that goes on is
another word.
-/

namespace Rslinker.Internal

open Scan

/-! ## Elements -/

/-- An element without the spaces behind it. -/
def trimmed (e : Bytes) : Bytes := e.rdropWhile (· = 32)

theorem trimmed_eq_nil {e : Bytes} (h : ∀ b ∈ e, b = 32) : trimmed e = [] := by
  simpa [trimmed, List.rdropWhile_eq_nil_iff] using h

theorem trimmed_of_not_mem {u : Bytes} (h : 32 ∉ u) : trimmed u = u := by
  refine List.rdropWhile_eq_self_iff.mpr fun hne hlast => h ?_
  rw [← of_decide_eq_true hlast]
  exact List.getLast_mem hne

/-- Spaces are only trimmed behind the last other byte. -/
theorem trimmed_append {u : Bytes} (h : trimmed u = u) (v : Bytes) :
    trimmed (u ++ v) = u ++ trimmed v := by
  induction v using List.reverseRecOn with
  | nil => simpa [trimmed] using h
  | append_singleton v b ih =>
      unfold trimmed at ih ⊢
      rw [← List.append_assoc, List.rdropWhile_concat, List.rdropWhile_concat, ih]
      split
      · rfl
      · rw [List.append_assoc]

theorem prefix_trimmed (e : Bytes) : trimmed e <+: e := List.rdropWhile_prefix _ _

/-- A part of a list that has no comma. -/
def IsElement (x : Bytes) : Prop := ∀ b ∈ x, listBytes.has b

theorem IsElement.right {x y : Bytes} (h : IsElement (x ++ y)) : IsElement y :=
  fun b hb => h b (List.mem_append_right x hb)

theorem IsElement.of_value {x : Bytes} (hx : IsValue x) (hcomma : ∀ b ∈ x, b ≠ 44) :
    IsElement x := by
  intro b hb
  have hall : allBytes fun b => !valueBytes.has b || b = 44 || listBytes.has b := rfl
  have h := of_allBytes hall b
  have hin : valueBytes.has b = true := hx b hb
  simpa [hin, hcomma b hb] using h

/-- What comes behind an element: the end of the line or a comma. -/
def EndsElement (z : UInt8) : Prop := z = 13 ∨ z = 44

/-- A list is one element, or an element and the rest of the list. -/
theorem list_induction {motive : (x : Bytes) → IsValue x → Prop}
    (last : ∀ e (h : IsValue e), IsElement e → motive e h)
    (cons : ∀ e rest (h : IsValue (e ++ 44 :: rest)) (hrest : IsValue rest), IsElement e →
      motive rest hrest → motive (e ++ 44 :: rest) h)
    (x : Bytes) (hx : IsValue x) : motive x hx := by
  induction hn : x.length using Nat.strong_induction_on generalizing x with
  | _ n ih =>
      have hsplit : x.takeWhile (· ≠ 44) ++ x.dropWhile (· ≠ 44) = x :=
        List.takeWhile_append_dropWhile
      have helement : IsElement (x.takeWhile (· ≠ 44)) := by
        refine .of_value (fun b hb => hx b ((List.takeWhile_prefix _).subset hb)) fun b hb => ?_
        simpa using List.mem_takeWhile_imp hb
      generalize x.takeWhile (· ≠ 44) = e at helement hsplit
      rcases dropWhile_cases (· ≠ 44) x with hnil | ⟨b, rest, hrest, hb⟩
      · rw [hnil, List.append_nil] at hsplit
        subst hsplit
        exact last _ hx helement
      · have hcomma : b = 44 := by simpa using hb
        rw [hrest, hcomma] at hsplit
        subst hsplit
        have hvalue : IsValue rest := fun b hb => hx b (by simp [hb])
        have hlt : rest.length < n := by
          rw [← hn, List.length_append, List.length_cons]
          omega
        exact cons _ rest hx hvalue helement (ih _ hlt rest hvalue rfl)

/-! ## `Connection` -/

/-- The options that llhttp knows, with their header states. -/
def knownOptions : List (Bytes × Nat) :=
  [(word ['c', 'l', 'o', 's', 'e'], 6),
    (word ['k', 'e', 'e', 'p', '-', 'a', 'l', 'i', 'v', 'e'], 5),
    (word ['u', 'p', 'g', 'r', 'a', 'd', 'e'], 7)]

/-- The header state of an option. -/
def optionState (e : Bytes) : Nat :=
  codeOf knownOptions ((trimmed (e.dropWhile blankBytes.has)).map toLower)

/-- Where an option with this header state has been read. Another one may leave a header state
behind, but none that sets a flag. -/
inductive OptionRead (d : Internal) : Nat → Label → Internal → Prop
  | known {k : Nat} (h : k ≠ 0) :
      OptionRead d k .headerValueConnectionWs { d with headerState := k }
  | other : OptionRead d 0 .headerValueConnectionToken d
  | forgotten : OptionRead d 0 .headerValueConnectionToken { d with headerState := 0 }

/-- The rest of an option is read from a node on, in front of which is the part `read` of it. -/
def ReadsOption (l : Label) (read : Bytes) : Prop :=
  ∀ (d : Internal) (rest : Bytes) (z : UInt8) (y : Bytes), IsElement rest → EndsElement z →
    ∃ t d', OptionRead d (codeOf knownOptions (read ++ (trimmed rest).map toLower)) t d' ∧
      Steps machine ⟨l, 0, some .headerValue, d⟩ (rest ++ z :: y)
        (eatenAll (some .headerValue) rest) ⟨t, 0, some .headerValue, d'⟩ (z :: y)

theorem connectionToken_steps (d : Internal) {x : Bytes} (hx : IsElement x) (y : Bytes) :
    Steps machine ⟨.headerValueConnectionToken, 0, some .headerValue, d⟩ (x ++ y)
      (eatenAll (some .headerValue) x)
      ⟨.headerValueConnectionToken, 0, some .headerValue, d⟩ y := by
  have hglide : ∀ b, listBytes.has b →
      machine.glide 1 .headerValueConnectionToken b = some .headerValueConnectionToken :=
    Machine.glide_all rfl 0 rfl rfl
  exact Machine.loop_steps (fun b hb => hglide b (hx b hb)) (some .headerValue) d y

theorem connectionWs_steps (d : Internal) {ws : Bytes} (hws : ∀ b ∈ ws, b = 32) (y : Bytes) :
    Steps machine ⟨.headerValueConnectionWs, 0, some .headerValue, d⟩ (ws ++ y)
      (eatenAll (some .headerValue) ws)
      ⟨.headerValueConnectionWs, 0, some .headerValue, d⟩ y := by
  refine Machine.loop_steps (n := 1) (fun b hb => ?_) _ d y
  rw [hws b hb]
  rfl

/-- All of `x` are spaces, or something else follows the first ones. -/
theorem spaces_cases (x : Bytes) :
    (∀ b ∈ x, b = 32) ∨
      ∃ ws b rest, x = ws ++ b :: rest ∧ (∀ c ∈ ws, c = 32) ∧ b ≠ 32 := by
  rcases dropWhile_cases (· = 32) x with hnil | ⟨b, rest, hrest, hb⟩
  · left
    simpa using List.dropWhile_eq_nil_iff.mp hnil
  · right
    refine ⟨x.takeWhile (· = 32), b, rest, ?_, fun c hc => ?_, by simpa using hb⟩
    · rw [← hrest, List.takeWhile_append_dropWhile]
    · simpa using List.mem_takeWhile_imp hc

/-- Behind a known option. -/
theorem optionEnd_steps (d : Internal) {k : Nat} (hk : k ≠ 0) {x : Bytes} (hx : IsElement x)
    (z : UInt8) (y : Bytes) :
    ∃ t d', OptionRead d (if trimmed x = [] then k else 0) t d' ∧
      Steps machine ⟨.headerValueConnectionWs, 0, some .headerValue, { d with headerState := k }⟩
        (x ++ z :: y) (eatenAll (some .headerValue) x) ⟨t, 0, some .headerValue, d'⟩ (z :: y) := by
  rcases spaces_cases x with hws | ⟨ws, b, rest, rfl, hws, hb⟩
  · rw [if_pos (trimmed_eq_nil hws)]
    exact ⟨_, _, .known hk, connectionWs_steps _ hws (z :: y)⟩
  · have hnil : trimmed (ws ++ b :: rest) ≠ [] := by
      intro hnil
      have hall := List.rdropWhile_eq_nil_iff.mp hnil b (by simp)
      exact hb (by simpa using hall)
    rw [if_neg hnil]
    have hin : listBytes.has b := hx b (by simp)
    have hskip : ∀ b, listBytes.has b && !decide (b = 32) →
        machine.skip 1 .headerValueConnectionWs b = .invokeUpdateHeaderState5 :=
      Machine.skip_all rfl 3 rfl rfl
    have hgo := Machine.skip_steps (hskip b (by simp [hin, hb])) (some .headerValue)
      { d with headerState := k } (rest ++ z :: y)
    have hforget := Machine.invoke_steps (m := machine) (l := .invokeUpdateHeaderState5) rfl
      (some .headerValue) { d with headerState := k } (b :: rest ++ z :: y)
    have htoken := connectionToken_steps { d with headerState := 0 } hx.right (z :: y)
    have hsteps := (connectionWs_steps { d with headerState := k } hws (b :: rest ++ z :: y)).trans
      (hgo.trans (hforget.trans htoken))
    rw [List.append_assoc, eatenAll_append]
    exact ⟨_, _, .forgotten, hsteps⟩

/-- A word is compared with what comes. -/
theorem ReadsOption.sequence {l hit : Label} {read w : Bytes} {k : Nat}
    (hnode : node l = .sequence toLower w hit .headerValueConnectionToken)
    (hhit : node hit = .invoke (storeHeaderState k) [] .headerValueConnectionWs)
    (hw : 0 < w.length ∧ 13 ∉ w ∧ 32 ∉ w ∧ 44 ∉ w) (hk : k ≠ 0)
    (hcode : codeOf knownOptions (read ++ w) = k)
    (htable : ∀ e ∈ knownOptions, read <+: e.1 → e.1 = read ++ w) : ReadsOption l read := by
  intro d rest z y hrest hz
  have hzw : toLower z ∉ w := by
    rcases hz with rfl | rfl
    · exact hw.2.1
    · exact hw.2.2.2
  -- no other word begins like this
  have hother : ∀ x, x ≠ w → codeOf knownOptions (read ++ x) = 0 := by
    intro x hx
    by_contra hne
    exact hx (List.append_cancel_left (htable _ (mem_of_codeOf hne) (List.prefix_append _ _)))
  rcases steps_sequence (m := machine) (c := ⟨l, 0, some .headerValue, d⟩) (x := rest) (b := z)
      hnode hw.1 hzw y with ⟨u, v, rfl, hu, hsteps⟩ | ⟨hmiss, u, v, rfl, hsteps⟩
  · rw [List.drop_zero] at hu
    have hspace : 32 ∉ u := fun h => hw.2.2.1 (hu ▸ List.mem_map_of_mem h)
    rw [trimmed_append (trimmed_of_not_mem hspace), List.map_append, hu]
    obtain ⟨t, d', hread, hend⟩ := optionEnd_steps d hk hrest.right z y
    have hinvoke := Machine.invoke_steps (m := machine) hhit (some .headerValue) d (v ++ z :: y)
    have hvalue : codeOf knownOptions (read ++ (w ++ (trimmed v).map toLower))
        = if trimmed v = [] then k else 0 := by
      split
      · case isTrue hnil => rw [hnil, List.map_nil, List.append_nil, hcode]
      · case isFalse hne =>
          refine hother _ fun heq => hne ?_
          simpa using heq
    rw [hvalue]
    have hgo := hsteps.trans (hinvoke.trans hend)
    rw [List.append_assoc, eatenAll_append]
    rw [List.append_assoc] at hgo
    exact ⟨t, d', hread, hgo⟩
  · have hzero : codeOf knownOptions (read ++ (trimmed (u ++ v)).map toLower) = 0 := by
      refine hother _ fun heq => hmiss ?_
      rw [List.drop_zero, ← heq]
      exact (prefix_trimmed _).map toLower
    rw [hzero]
    have hgo := hsteps.trans (connectionToken_steps d hrest.right (z :: y))
    rw [eatenAll_append]
    exact ⟨_, d, .other, hgo⟩

/-- **An option is read.** -/
theorem option_steps (d : Internal) {e : Bytes} (he : IsElement e) {z : UInt8} (hz : EndsElement z)
    (y : Bytes) :
    ∃ t d', OptionRead d (optionState e) t d' ∧
      Steps machine ⟨.headerValueConnection, 0, some .headerValue, d⟩ (e ++ z :: y)
        (eatenAll (some .headerValue) e) ⟨t, 0, some .headerValue, d'⟩ (z :: y) := by
  have hclose : ReadsOption .headerValueConnection1 (word ['c']) :=
    .sequence rfl rfl (by decide) (k := 6) (by decide) (by decide) (by decide)
  have hkeep : ReadsOption .headerValueConnection2 (word ['k']) :=
    .sequence rfl rfl (by decide) (k := 5) (by decide) (by decide) (by decide)
  have hupgrade : ReadsOption .headerValueConnection3 (word ['u']) :=
    .sequence rfl rfl (by decide) (k := 7) (by decide) (by decide) (by decide)
  have hblanks : ∀ b, blankBytes.has b →
      machine.glide 1 .headerValueConnection b = some .headerValueConnection :=
    Machine.glide_all rfl 0 rfl rfl
  have hskip : ∀ b, !(toLower b = 99 || toLower b = 107 || toLower b = 117 || blankBytes.has b) →
      machine.skip 1 .headerValueConnection b = .headerValueConnectionToken :=
    Machine.skip_all rfl 4 rfl rfl
  -- behind the blanks
  have hword : ∀ rest, IsElement rest → (∀ b, rest.head? = some b → blankBytes.has b = false) →
      ∃ t d', OptionRead d (codeOf knownOptions ((trimmed rest).map toLower)) t d' ∧
        Steps machine ⟨.headerValueConnection, 0, some .headerValue, d⟩ (rest ++ z :: y)
          (eatenAll (some .headerValue) rest) ⟨t, 0, some .headerValue, d'⟩ (z :: y) := by
    intro rest hrest hhead
    rcases rest with _ | ⟨b, rest⟩
    · have hz' : machine.skip 1 .headerValueConnection z = .headerValueConnectionToken := by
        rcases hz with rfl | rfl <;> rfl
      exact ⟨_, d, .other, Machine.skip_steps hz' _ d y⟩
    · have hb := hhead b rfl
      have hne : b ≠ 32 := by
        rintro rfl
        cases hb
      have htrim : trimmed (b :: rest) = b :: trimmed rest :=
        trimmed_append (trimmed_of_not_mem (u := [b]) (by simpa using hne.symm)) rest
      have hletter : ∀ {c : UInt8} {l : Label}, toLower b = c →
          machine.glide 1 .headerValueConnection b = some l → ReadsOption l [c] →
          ∃ t d', OptionRead d (codeOf knownOptions ((trimmed (b :: rest)).map toLower)) t d' ∧
            Steps machine ⟨.headerValueConnection, 0, some .headerValue, d⟩ (b :: rest ++ z :: y)
              (eatenAll (some .headerValue) (b :: rest)) ⟨t, 0, some .headerValue, d'⟩ (z :: y) := by
        rintro _ l rfl hglide h
        obtain ⟨t, d', hread, hsteps⟩ := h d rest z y (IsElement.right (x := [b]) hrest) hz
        rw [htrim]
        exact ⟨t, d', hread, (Machine.glide_steps hglide _ d (rest ++ z :: y)).trans hsteps⟩
      by_cases hc : toLower b = 99
      · exact hletter hc (Machine.glide_all (p := fun b => toLower b = 99) rfl 1 rfl
          rfl b (by simpa using hc)) hclose
      by_cases hk : toLower b = 107
      · exact hletter hk (Machine.glide_all (p := fun b => toLower b = 107) rfl 2 rfl
          rfl b (by simpa using hk)) hkeep
      by_cases hu : toLower b = 117
      · exact hletter hu (Machine.glide_all (p := fun b => toLower b = 117) rfl 3 rfl
          rfl b (by simpa using hu)) hupgrade
      have hzero : codeOf knownOptions ((trimmed (b :: rest)).map toLower) = 0 := by
        by_contra hcode
        have hfirst : ∀ e ∈ knownOptions, e.1.head? ∈ [some 99, some 107, some 117] := by decide
        have hmem := hfirst _ (mem_of_codeOf hcode)
        rw [htrim] at hmem
        simp [hc, hk, hu] at hmem
      have hgo := Machine.skip_steps (hskip b (by simp [hc, hk, hu, hb])) (some Span.headerValue) d
        (rest ++ z :: y)
      rw [hzero]
      exact ⟨_, d, .other, hgo.trans (connectionToken_steps d hrest (z :: y))⟩
  have hhead : ∀ b, (e.dropWhile blankBytes.has).head? = some b → blankBytes.has b = false := by
    intro b hb
    rcases dropWhile_cases blankBytes.has e with hnil | ⟨b', rest, hrest, hb'⟩
    · rw [hnil] at hb
      cases hb
    · rw [hrest] at hb
      obtain rfl := Option.some.inj hb
      exact hb'
  have helement : IsElement (e.dropWhile blankBytes.has) :=
    fun b hb => he b ((List.dropWhile_suffix _).subset hb)
  obtain ⟨t, d', hread, hsteps⟩ := hword _ helement hhead
  have hloop := Machine.loop_steps (m := machine) (u := e.takeWhile blankBytes.has)
    (fun b hb => hblanks b (List.mem_takeWhile_imp hb)) (some .headerValue) d
    (e.dropWhile blankBytes.has ++ z :: y)
  have hgo := hloop.trans hsteps
  rw [← List.append_assoc, ← eatenAll_append, List.takeWhile_append_dropWhile] at hgo
  exact ⟨t, d', hread, hgo⟩

/-- The data without the header state, which the next header sets again. -/
def general (d : Internal) : Internal := { d with headerState := 0 }

def addOption (d : Internal) (e : Bytes) : Internal :=
  ({ d with headerState := optionState e } : Internal).settle.general

/-- The flags of all options of a `Connection`. -/
def addOptions (d : Internal) (value : Bytes) : Internal := (value.splitOn 44).foldl addOption d.general

theorem optionState_mem (e : Bytes) : optionState e ∈ [0, 5, 6, 7] := by
  by_cases h : optionState e = 0
  · simp [h]
  · have hcodes : ∀ e ∈ knownOptions, e.2 ∈ [0, 5, 6, 7] := by decide
    exact hcodes _ (mem_of_codeOf h)

/-- An option in the list has this header state. -/
def hasOption (value : Bytes) (k : Nat) : Bool := (value.splitOn 44).any fun e => optionState e = k

theorem addOption_eq (d : Internal) (e : Bytes) :
    d.addOption e = { d.general with flags := { d.flags with
      connectionKeepAlive := d.flags.connectionKeepAlive || optionState e = 5
      connectionClose := d.flags.connectionClose || optionState e = 6
      connectionUpgrade := d.flags.connectionUpgrade || optionState e = 7 } } := by
  have hmem := optionState_mem e
  unfold addOption
  generalize optionState e = k at hmem ⊢
  simp only [List.mem_cons, List.not_mem_nil, or_false] at hmem
  rcases hmem with rfl | rfl | rfl | rfl <;> simp [settle, general]

/-- **The flags of a `Connection`** are those of the options in its list. -/
theorem addOptions_eq (d : Internal) (value : Bytes) :
    d.addOptions value = { d.general with flags := { d.flags with
      connectionKeepAlive := d.flags.connectionKeepAlive || hasOption value 5
      connectionClose := d.flags.connectionClose || hasOption value 6
      connectionUpgrade := d.flags.connectionUpgrade || hasOption value 7 } } := by
  have hfold : ∀ (es : List Bytes) (d : Internal), es.foldl addOption d.general
      = { d.general with flags := { d.flags with
        connectionKeepAlive := d.flags.connectionKeepAlive || es.any fun e => optionState e = 5
        connectionClose := d.flags.connectionClose || es.any fun e => optionState e = 6
        connectionUpgrade := d.flags.connectionUpgrade || es.any fun e => optionState e = 7 } } := by
    intro es
    induction es with
    | nil => intro d; simp [general]
    | cons e es ih =>
        intro d
        have hstep := ih (d.general.addOption e)
        rw [List.foldl_cons]
        rw [addOption_eq] at hstep ⊢
        refine hstep.trans ?_
        simp [general, Bool.or_assoc]
  exact hfold _ d

/-- What has been read of an option is its header state. -/
theorem OptionRead.settle {d d' : Internal} {e : Bytes} {t : Label}
    (h : OptionRead d (optionState e) t d') (hd : d.headerState ≤ 1) :
    d'.settle.headerState ≤ 1 ∧ d'.settle.general = addOption d.general e := by
  have hmem := optionState_mem e
  unfold addOption
  generalize optionState e = k at h hmem ⊢
  cases h with
  | known hk =>
      refine ⟨?_, rfl⟩
      simp only [List.mem_cons, hk, List.not_mem_nil, or_false, false_or] at hmem
      rcases hmem with rfl | rfl | rfl <;> exact Nat.le_refl 1
  | other =>
      rw [settle_of_lt (by omega)]
      exact ⟨hd, rfl⟩
  | forgotten => exact ⟨Nat.zero_le 1, rfl⟩

/-- Behind the comma the next option begins, with the flag of the last one. -/
theorem comma_steps {d d' : Internal} {e : Bytes} {t : Label} (h : OptionRead d (optionState e) t d')
    (hd : d.headerState ≤ 1) (y : Bytes) :
    Steps machine ⟨t, 0, some .headerValue, d'⟩ (44 :: y) (eatenAll (some .headerValue) [44])
      ⟨.headerValueConnection, 0, some .headerValue, d'.settle⟩ y := by
  generalize optionState e = k at h
  cases h with
  | known hk =>
      have htake := Machine.glide_steps (m := machine) (n := 1) (l := .headerValueConnectionWs)
        (b := 44) rfl (some .headerValue) { d with headerState := k } y
      have hsettle := settle_steps (l := .invokeLoadHeaderState6) rfl rfl rfl rfl rfl rfl
        (some .headerValue) { d with headerState := k } y
      exact htake.trans hsettle
  | other =>
      rw [settle_of_lt (by omega)]
      exact Machine.glide_steps (m := machine) (n := 1) (l := .headerValueConnectionToken) (b := 44)
        rfl (some .headerValue) d y
  | forgotten =>
      rw [settle_of_lt (Nat.zero_lt_succ 4)]
      exact Machine.glide_steps (m := machine) (n := 1) (l := .headerValueConnectionToken) (b := 44)
        rfl (some .headerValue) { d with headerState := 0 } y

/-- **A `Connection` is read**, and all of its options set their flags. -/
theorem connection_steps {value : Bytes} (hvalue : IsValue value) (d : Internal)
    (hd : d.headerState ≤ 1) (y : Bytes) :
    ∃ d', d'.settle.general = addOptions d value ∧
      Steps machine ⟨.headerValueConnection, 0, some .headerValue, d⟩ (value ++ 13 :: y)
        (eatenAll (some .headerValue) value) ⟨.headerValueOtherwise, 0, some .headerValue, d'⟩
        (13 :: y) := by
  induction value, hvalue using list_induction generalizing d with
  | last e _ he =>
      obtain ⟨t, d', hread, hsteps⟩ := option_steps d he (.inl rfl) y
      have hcomma : 44 ∉ e := fun h => absurd (he 44 h) (by decide)
      refine ⟨d', ?_, hsteps.silent ?_⟩
      · rw [addOptions, List.splitOn_eq_singleton hcomma, (hread.settle hd).2]
        rfl
      · have hskip : machine.skip 1 t 13 = .headerValueOtherwise := by
          generalize optionState e = k at hread
          cases hread <;> rfl
        exact Machine.skip_steps hskip _ d' y
  | cons e rest _ hrest he ih =>
      obtain ⟨t, d', hread, hsteps⟩ := option_steps d he (.inr rfl) (rest ++ 13 :: y)
      have hcomma : 44 ∉ e := fun h => absurd (he 44 h) (by decide)
      obtain ⟨hd', hgeneral⟩ := hread.settle hd
      obtain ⟨d'', hsettle, hsteps'⟩ := ih _ hd'
      refine ⟨d'', ?_, ?_⟩
      · rw [hsettle, addOptions, addOptions, List.splitOn_append_cons_self_of_not_mem hcomma,
          List.foldl_cons, hgeneral]
      · have hgo := hsteps.trans ((comma_steps hread hd (rest ++ 13 :: y)).trans hsteps')
        rw [← eatenAll_append, ← eatenAll_append] at hgo
        simpa using hgo

/-! ## `Transfer-Encoding` -/

def isChunked (e : Bytes) : Bool :=
  (trimmed e).map toLowerUnsafe = word ['c', 'h', 'u', 'n', 'k', 'e', 'd']

theorem teToken_steps (d : Internal) {x : Bytes} (hx : IsElement x) (y : Bytes) :
    Steps machine ⟨.headerValueTeToken, 0, some .headerValue, d⟩ (x ++ y)
      (eatenAll (some .headerValue) x) ⟨.headerValueTeToken, 0, some .headerValue, d⟩ y := by
  have hglide : ∀ b, listBytes.has b →
      machine.glide 1 .headerValueTeToken b = some .headerValueTeToken :=
    Machine.glide_all rfl 0 rfl rfl
  exact Machine.loop_steps (fun b hb => hglide b (hx b hb)) (some .headerValue) d y

/-- Behind the word `chunked`. -/
theorem chunkedEnd_steps (d : Internal) {x : Bytes} (hx : IsElement x) (z : UInt8) (y : Bytes) :
    Steps machine ⟨.headerValueTeChunkedLast, 0, some .headerValue, d⟩ (x ++ z :: y)
      (eatenAll (some .headerValue) x)
      ⟨if trimmed x = [] then .headerValueTeChunkedLast else .headerValueTeToken, 0,
        some .headerValue, d⟩ (z :: y) := by
  have hloop : ∀ ws : Bytes, (∀ b ∈ ws, b = 32) → ∀ y, Steps machine
      ⟨.headerValueTeChunkedLast, 0, some .headerValue, d⟩ (ws ++ y)
      (eatenAll (some .headerValue) ws)
      ⟨.headerValueTeChunkedLast, 0, some .headerValue, d⟩ y := by
    intro ws hws y
    refine Machine.loop_steps (n := 1) (fun b hb => ?_) _ d y
    rw [hws b hb]
    rfl
  rcases spaces_cases x with hws | ⟨ws, b, rest, rfl, hws, hb⟩
  · rw [if_pos (trimmed_eq_nil hws)]
    exact hloop x hws (z :: y)
  · have hnil : trimmed (ws ++ b :: rest) ≠ [] := by
      intro hnil
      have hall := List.rdropWhile_eq_nil_iff.mp hnil b (by simp)
      exact hb (by simpa using hall)
    have hin : listBytes.has b := hx b (by simp)
    have hskip : ∀ b, listBytes.has b && !decide (b = 32) →
        machine.skip 1 .headerValueTeChunkedLast b = .headerValueTeToken :=
      Machine.skip_all rfl 3 rfl rfl
    have hgo := Machine.skip_steps (hskip b (by simp [hin, hb])) (some .headerValue) d
      (rest ++ z :: y)
    have hsteps := (hloop ws hws (b :: rest ++ z :: y)).trans
      (hgo.trans (teToken_steps d hx.right (z :: y)))
    rw [if_neg hnil, List.append_assoc, eatenAll_append]
    exact hsteps

/-- **A coding is read.** -/
theorem coding_steps (d : Internal) {e : Bytes} (he : IsElement e) {z : UInt8} (hz : EndsElement z)
    (y : Bytes) :
    Steps machine ⟨.headerValueTeChunked, 0, some .headerValue, d⟩ (e ++ z :: y)
      (eatenAll (some .headerValue) e)
      ⟨if isChunked e then .headerValueTeChunkedLast else .headerValueTeToken, 0,
        some .headerValue, d⟩ (z :: y) := by
  have hzw : toLowerUnsafe z ∉ word ['c', 'h', 'u', 'n', 'k', 'e', 'd'] := by
    rcases hz with rfl | rfl <;> decide
  have hpos : 0 < (word ['c', 'h', 'u', 'n', 'k', 'e', 'd']).length := by decide
  rcases steps_sequence (m := machine) (c := ⟨.headerValueTeChunked, 0, some .headerValue, d⟩)
      (x := e) (b := z) rfl hpos hzw y with ⟨u, v, rfl, hu, hsteps⟩ | ⟨hmiss, u, v, rfl, hsteps⟩
  · rw [List.drop_zero] at hu
    have hspace : 32 ∉ u := by
      intro h
      have hmem := List.mem_map_of_mem (f := toLowerUnsafe) h
      rw [hu] at hmem
      exact absurd hmem (by decide)
    have hchunked : isChunked (u ++ v) = decide (trimmed v = []) := by
      unfold isChunked
      rw [trimmed_append (trimmed_of_not_mem hspace), List.map_append, hu]
      refine decide_eq_decide.mpr ⟨fun heq => ?_, fun hnil => by rw [hnil]; rfl⟩
      simpa using List.append_cancel_left (heq.trans (List.append_nil _).symm)
    have hgo := hsteps.trans (chunkedEnd_steps d he.right z y)
    rw [← eatenAll_append] at hgo
    simpa only [hchunked, decide_eq_true_eq] using hgo
  · have hno : isChunked (u ++ v) = false := by
      refine decide_eq_false fun heq => hmiss ?_
      rw [List.drop_zero, ← heq]
      exact (prefix_trimmed _).map toLowerUnsafe
    have hgo := hsteps.trans (teToken_steps d he.right (z :: y))
    rw [← eatenAll_append] at hgo
    rw [hno]
    exact hgo

/-- Whether `chunked` is the last coding. It is an error when another one follows it. -/
def endsChunked : List Bytes → Option Bool
  | [] => some false
  | [e] => some (isChunked (e.dropWhile blankBytes.has))
  | e :: es => if isChunked (e.dropWhile blankBytes.has) then none else endsChunked es

/-- How a list of codings is read that ends with the line. -/
def CodingsRead (d : Internal) (x y : Bytes) : Option Bool → Prop
  | some chunked =>
      Steps machine ⟨.headerValueTeChunked, 0, some .headerValue, d⟩ (x ++ 13 :: y)
        (eatenAll (some .headerValue) x)
        ⟨.headerValueOtherwise, 0, some .headerValue,
          { d with headerState := if chunked then 8 else 0 }⟩ (13 :: y)
  | none =>
      Rejects machine ⟨.headerValueTeChunked, 0, some .headerValue, d⟩ (x ++ 13 :: y) 15

theorem CodingsRead.behind {d : Internal} {u x y : Bytes} {r : Option Bool}
    (h : Steps machine ⟨.headerValueTeChunked, 0, some .headerValue, d⟩ (u ++ x ++ 13 :: y)
      (eatenAll (some .headerValue) u) ⟨.headerValueTeChunked, 0, some .headerValue, d⟩
      (x ++ 13 :: y))
    (hx : CodingsRead d x y r) : CodingsRead d (u ++ x) y r := by
  cases r with
  | none => exact h.rejects hx
  | some chunked =>
      have hgo := h.trans hx
      rw [← eatenAll_append] at hgo
      exact hgo

/-- Blanks between a comma and a coding. -/
theorem ows_steps (d : Internal) (x : Bytes) (y : Bytes) :
    Steps machine ⟨.headerValueTeTokenOws, 0, some .headerValue, d⟩ (x ++ 13 :: y)
      (eatenAll (some .headerValue) (x.takeWhile blankBytes.has))
      ⟨.headerValueTeChunked, 0, some .headerValue, d⟩ (x.dropWhile blankBytes.has ++ 13 :: y) := by
  have hglide : ∀ b, blankBytes.has b →
      machine.glide 1 .headerValueTeTokenOws b = some .headerValueTeTokenOws :=
    Machine.glide_all rfl 0 rfl rfl
  have hskip : ∀ b, !blankBytes.has b →
      machine.skip 1 .headerValueTeTokenOws b = .headerValueTeChunked :=
    Machine.skip_all rfl 1 rfl rfl
  have hloop := Machine.loop_steps (m := machine) (u := x.takeWhile blankBytes.has)
    (fun b hb => hglide b (List.mem_takeWhile_imp hb)) (some .headerValue) d
    (x.dropWhile blankBytes.has ++ 13 :: y)
  rw [← List.append_assoc, List.takeWhile_append_dropWhile] at hloop
  refine hloop.silent ?_
  rcases dropWhile_cases blankBytes.has x with hnil | ⟨b, rest, hrest, hb⟩
  · rw [hnil]
    exact Machine.skip_steps (hskip 13 rfl) _ d y
  · rw [hrest]
    exact Machine.skip_steps (hskip b (by rw [hb]; rfl)) _ d (rest ++ 13 :: y)

/-- **A `Transfer-Encoding` is read**, or it is an error. -/
theorem codings_read {value : Bytes} (hvalue : IsValue value) (d : Internal) (y : Bytes) :
    CodingsRead d (value.dropWhile blankBytes.has) y (endsChunked (value.splitOn 44)) := by
  induction value, hvalue using list_induction with
  | last e _ he =>
      have hcomma : 44 ∉ e := fun h => absurd (he 44 h) (by decide)
      rw [List.splitOn_eq_singleton hcomma]
      have helement : IsElement (e.dropWhile blankBytes.has) :=
        fun b hb => he b ((List.dropWhile_suffix _).subset hb)
      have hread := coding_steps d helement (.inl rfl) y
      show Steps _ _ _ _ _ _
      refine hread.silent ?_
      cases isChunked (e.dropWhile blankBytes.has) with
      | true => exact Machine.steps_of_follow 2 rfl
      | false => exact Machine.steps_of_follow 3 rfl
  | cons e rest _ hrest he ih =>
      have hcomma : 44 ∉ e := fun h => absurd (he 44 h) (by decide)
      have hdrop : (e ++ 44 :: rest).dropWhile blankBytes.has
          = e.dropWhile blankBytes.has ++ 44 :: rest := by
        rw [List.dropWhile_append]
        split
        · case isTrue hnil =>
            rw [List.isEmpty_iff.mp hnil]
            rfl
        · rfl
      have helement : IsElement (e.dropWhile blankBytes.has) :=
        fun b hb => he b ((List.dropWhile_suffix _).subset hb)
      have hread := coding_steps d helement (.inr rfl) (rest ++ 13 :: y)
      rw [List.splitOn_append_cons_self_of_not_mem hcomma, hdrop]
      have hends : endsChunked (e :: rest.splitOn 44)
          = if isChunked (e.dropWhile blankBytes.has) then none else endsChunked (rest.splitOn 44) := by
        rcases hsplit : rest.splitOn 44 with _ | ⟨e', es⟩
        · exact absurd hsplit (List.splitOn_ne_nil 44 rest)
        · rfl
      rw [hends]
      cases hchunked : isChunked (e.dropWhile blankBytes.has) with
      | true =>
          rw [hchunked] at hread
          have hstop : Rejects machine
              ⟨.headerValueTeChunkedLast, 0, some .headerValue, d⟩ (44 :: (rest ++ 13 :: y)) 15 :=
            .of_follow 4 rfl rfl
          have hreject := hread.rejects hstop
          simpa [CodingsRead] using hreject
      | false =>
          rw [hchunked] at hread
          have htoken := Machine.glide_steps (m := machine) (n := 1) (l := .headerValueTeToken)
            (b := 44) rfl (some .headerValue) d (rest ++ 13 :: y)
          have hgo := hread.trans (htoken.trans (ows_steps d rest y))
          have hparts : e.dropWhile blankBytes.has ++ 44 :: rest
              = e.dropWhile blankBytes.has ++ 44 :: rest.takeWhile blankBytes.has
                ++ rest.dropWhile blankBytes.has := by
            rw [List.append_assoc, List.cons_append, List.takeWhile_append_dropWhile]
          rw [hparts]
          refine CodingsRead.behind ?_ ih
          rw [← hparts, eatenAll_append, List.append_assoc]
          exact hgo

end Rslinker.Internal
