import Rslinker.Llhttp.Fields

set_option autoImplicit false

/-! # The request line

The methods are those of `HTTP_METHOD_MAP`, each with its number. A URL goes up to the next space; it
is a path, an absolute URL, or for `CONNECT` a server, and every other one is an error. The versions
are 0.9, 1.0, 1.1 and 2.0.

As with fields there is a function for each part, `urlOk` for the URL and the tables of methods and
versions, and llhttp reads a request line exactly when these accept its parts.
-/

namespace Rslinker.Internal

open Scan

/-! ## Methods

A method is found like the name of a header, by a tree of its letters, but in upper case and
without a way out: whatever is no method is an error. -/

/-- `HTTP_METHOD_MAP` -/
def httpMethods : List (Bytes × Nat) :=
  [(word ['D', 'E', 'L', 'E', 'T', 'E'], 0), (word ['G', 'E', 'T'], 1),
    (word ['H', 'E', 'A', 'D'], 2), (word ['P', 'O', 'S', 'T'], 3), (word ['P', 'U', 'T'], 4),
    (word ['C', 'O', 'N', 'N', 'E', 'C', 'T'], 5), (word ['O', 'P', 'T', 'I', 'O', 'N', 'S'], 6),
    (word ['T', 'R', 'A', 'C', 'E'], 7), (word ['C', 'O', 'P', 'Y'], 8),
    (word ['L', 'O', 'C', 'K'], 9), (word ['M', 'K', 'C', 'O', 'L'], 10),
    (word ['M', 'O', 'V', 'E'], 11), (word ['P', 'R', 'O', 'P', 'F', 'I', 'N', 'D'], 12),
    (word ['P', 'R', 'O', 'P', 'P', 'A', 'T', 'C', 'H'], 13),
    (word ['S', 'E', 'A', 'R', 'C', 'H'], 14), (word ['U', 'N', 'L', 'O', 'C', 'K'], 15),
    (word ['B', 'I', 'N', 'D'], 16), (word ['R', 'E', 'B', 'I', 'N', 'D'], 17),
    (word ['U', 'N', 'B', 'I', 'N', 'D'], 18), (word ['A', 'C', 'L'], 19),
    (word ['R', 'E', 'P', 'O', 'R', 'T'], 20),
    (word ['M', 'K', 'A', 'C', 'T', 'I', 'V', 'I', 'T', 'Y'], 21),
    (word ['C', 'H', 'E', 'C', 'K', 'O', 'U', 'T'], 22), (word ['M', 'E', 'R', 'G', 'E'], 23),
    (word ['M', '-', 'S', 'E', 'A', 'R', 'C', 'H'], 24), (word ['N', 'O', 'T', 'I', 'F', 'Y'], 25),
    (word ['S', 'U', 'B', 'S', 'C', 'R', 'I', 'B', 'E'], 26),
    (word ['U', 'N', 'S', 'U', 'B', 'S', 'C', 'R', 'I', 'B', 'E'], 27),
    (word ['P', 'A', 'T', 'C', 'H'], 28), (word ['P', 'U', 'R', 'G', 'E'], 29),
    (word ['M', 'K', 'C', 'A', 'L', 'E', 'N', 'D', 'A', 'R'], 30), (word ['L', 'I', 'N', 'K'], 31),
    (word ['U', 'N', 'L', 'I', 'N', 'K'], 32), (word ['S', 'O', 'U', 'R', 'C', 'E'], 33)]

/-- What comes before the method of a message. -/
def beginEvents (d : Internal) : List (Event Span Report) :=
  if d.initialMessageCompleted then [.report .reset, .report .messageBegin]
  else [.report .messageBegin]

theorem methods_follow (d : Internal) :
    httpMethods.map (fun m => machine.follow 30 ⟨.spanStartOnMethod1, 0, none, d⟩ (m.1 ++ [32])) =
      httpMethods.map fun m => (eatenAll (some .method) m.1 ++ [.report .methodComplete],
        ⟨.reqSpacesBeforeUrl, 0, none, { d with method := m.2 }⟩, []) := rfl

/-- **Every method is read** and gets its number. -/
theorem method_steps (d : Internal) {m : Bytes × Nat} (hm : m ∈ httpMethods) (y : Bytes) :
    Steps machine ⟨.spanStartOnMethod1, 0, none, d⟩ (m.1 ++ 32 :: y)
      (eatenAll (some .method) m.1 ++ [.report .methodComplete])
      ⟨.reqSpacesBeforeUrl, 0, none, { d with method := m.2 }⟩ y := by
  have hfollow := List.map_inj_left.mp (methods_follow d) m hm
  have hsteps := (Machine.steps_of_follow 30 hfollow).append y
  simpa using hsteps

/-- **A message begins.** -/
theorem begin_steps (d : Internal) {b : UInt8} (hb : b ≠ 10 ∧ b ≠ 13) (x : Bytes) :
    Steps machine ⟨.start, 0, none, d⟩ (b :: x) (beginEvents d)
      ⟨.spanStartOnMethod1, 0, none, { d with finish := 2 }⟩ (b :: x) := by
  have hskip : ∀ b, !(b = 10 || b = 13) →
      machine.skip 1 .start b = .invokeLoadInitialMessageCompleted :=
    Machine.skip_all rfl 1 rfl rfl
  have hgo := Machine.skip_steps (hskip b (by simp [hb])) (none : Option Span) d x
  have hload := Machine.invoke_steps (m := machine) (l := .invokeLoadInitialMessageCompleted) rfl
    none d (b :: x)
  have hrest : Steps machine ⟨.invokeUpdateFinish, 0, none, d⟩ (b :: x) [.report .messageBegin]
      ⟨.spanStartOnMethod1, 0, none, { d with finish := 2 }⟩ (b :: x) := Machine.steps_of_follow 3 rfl
  unfold beginEvents
  by_cases hdone : d.initialMessageCompleted
  · have hlookup : lookup [(1, Label.invokeOnReset)] .invokeUpdateFinish
        (loadInitialMessageCompleted d).2 = .invokeOnReset := by
      simp [loadInitialMessageCompleted, hdone, lookup]
    rw [hlookup] at hload
    have hreset : Steps machine ⟨.invokeOnReset, 0, none, d⟩ (b :: x) [.report .reset]
        ⟨.invokeUpdateFinish, 0, none, d⟩ (b :: x) := .of_quiet rfl
    rw [if_pos hdone]
    exact hgo.trans (hload.trans (hreset.trans hrest))
  · have hlookup : lookup [(1, Label.invokeOnReset)] .invokeUpdateFinish
        (loadInitialMessageCompleted d).2 = .invokeUpdateFinish := by
      simp [loadInitialMessageCompleted, hdone, lookup]
    rw [hlookup] at hload
    rw [if_neg hdone]
    exact hgo.trans (hload.trans hrest)

/-! ## URLs

The nodes of a URL are an automaton over its bytes. `urlOk` is the same automaton as a function
that goes from part to part; a byte that has no place where it stands is error 7. A URL in front of
which there is a tab or a form feed is one as well. -/

def fragmentOk : Bytes → Bool
  | [] => true
  | b :: x => fragmentBytes.has b && fragmentOk x

def queryOk : Bytes → Bool
  | [] => true
  | b :: x => if queryBytes.has b then queryOk x else b = 35 && fragmentOk x

def pathOk : Bytes → Bool
  | [] => true
  | b :: x => if pathBytes.has b then pathOk x else if b = 63 then queryOk x else b = 35 && fragmentOk x

/-- A server, and what may come behind it; `behindAt` tells whether the last byte was an `@`. -/
def serverOk (behindAt : Bool) : Bytes → Bool
  | [] => true
  | b :: x =>
      if serverBytes.has b then serverOk false x
      else if b = 47 then pathOk x
      else if b = 63 then queryOk x
      else b = 64 && !behindAt && serverOk true x

/-- Two slashes and a server. -/
def slashesOk : Bytes → Bool
  | a :: b :: x => a = 47 && b = 47 && serverOk false x
  | _ => false

def schemaOk : Bytes → Bool
  | [] => false
  | b :: x => if letters.has b then schemaOk x else b = 58 && slashesOk x

/-- The URLs that llhttp accepts, for `CONNECT` and for the other methods. -/
def urlOk (connect : Bool) (x : Bytes) : Bool :=
  if connect then serverOk false x
  else match x with
    | [] => false
    | b :: rest => if b = 42 ∨ b = 47 then pathOk rest else letters.has b && schemaOk x

/-- A URL goes up to the next space; it has no line feed and no carriage return. -/
def IsUrlText (x : Bytes) : Prop := ∀ b ∈ x, b ≠ 10 ∧ b ≠ 13 ∧ b ≠ 32

/-- How a URL is read in front of a version, or that it is an error. -/
def UrlOutcome (c : Config Label Internal Span) (d : Internal) (x y : Bytes) : Bool → Prop
  | true =>
      Steps machine c (x ++ 32 :: 72 :: y) (eatenAll (some .url) x ++ [.report .urlComplete])
        ⟨.reqHttpStart, 0, none, d⟩ (72 :: y)
  | false => Rejects machine c (x ++ 32 :: 72 :: y) 7

theorem UrlOutcome.silent {c c' : Config Label Internal Span} {d : Internal} {x y : Bytes} {ok : Bool}
    (h : Steps machine c (x ++ 32 :: 72 :: y) [] c' (x ++ 32 :: 72 :: y))
    (h' : UrlOutcome c' d x y ok) : UrlOutcome c d x y ok := by
  cases ok with
  | true => exact h.trans h'
  | false => exact h.rejects h'

/-- The rest of a URL is read from a node on. -/
def ReadsUrl (l : Label) (x : Bytes) (ok : Bool) : Prop :=
  ∀ (d : Internal) (y : Bytes), UrlOutcome ⟨l, 0, some .url, d⟩ d x y ok

theorem ReadsUrl.cons {l t : Label} {n : Nat} {b : UInt8} {x : Bytes} {ok : Bool}
    (hglide : machine.glide n l b = some t) (h : ReadsUrl t x ok) : ReadsUrl l (b :: x) ok := by
  intro d y
  have htake := Machine.glide_steps hglide (some .url) d (x ++ 32 :: 72 :: y)
  cases ok with
  | true => exact htake.trans (h d y)
  | false => exact htake.rejects (h d y)

/-- The bytes that are an error at a node of the URL. -/
def badAt (l : Label) (b : UInt8) : Bool := machine.derail 3 l b = some 7

theorem ReadsUrl.bad {l : Label} {b : UInt8} (h : badAt l b) (x : Bytes) :
    ReadsUrl l (b :: x) false := by
  intro d y
  exact Machine.derail_rejects (of_decide_eq_true h) (some .url) d (x ++ 32 :: 72 :: y)

/-- The bytes that end a line or a URL. -/
def endBytes : ByteSet := [(10, 10), (13, 13), (32, 32)]

theorem IsUrlText.of_cons {b : UInt8} {x : Bytes} (h : IsUrlText (b :: x)) :
    endBytes.has b = false ∧ IsUrlText x := by
  refine ⟨?_, fun b' hb' => h b' (List.mem_cons_of_mem b hb')⟩
  have hb := h b List.mem_cons_self
  have hall : allBytes fun b => b = 10 || b = 13 || b = 32 || !endBytes.has b := rfl
  simpa [hb] using of_allBytes hall b

/-- At a node all bytes are bad but those of a set and these. -/
theorem ReadsUrl.of_bad {l : Label} (set good : ByteSet)
    (hall : allBytes fun b => endBytes.has b || set.has b || good.has b || badAt l b) {b : UInt8}
    (hend : endBytes.has b = false) (hset : set.has b = false) (hgood : good.has b = false)
    (x : Bytes) : ReadsUrl l (b :: x) false := by
  have h := of_allBytes hall b
  simp only [hend, hset, hgood, Bool.false_or] at h
  exact .bad h x

theorem readsUrl_fragment {x : Bytes} (hx : IsUrlText x) :
    ReadsUrl .urlFragment x (fragmentOk x) := by
  have hglide : ∀ b, fragmentBytes.has b → machine.glide 1 .urlFragment b = some .urlFragment :=
    Machine.glide_all rfl 4 rfl rfl
  induction x with
  | nil => exact fun d y => Machine.steps_of_follow 5 rfl
  | cons b x ih =>
      obtain ⟨hend, htext⟩ := hx.of_cons
      rw [fragmentOk]
      cases hin : fragmentBytes.has b with
      | true => exact .cons (hglide b hin) (ih htext)
      | false => exact .of_bad fragmentBytes [] rfl hend hin rfl x

theorem readsUrl_query {x : Bytes} (hx : IsUrlText x) : ReadsUrl .urlQuery x (queryOk x) := by
  have hglide : ∀ b, queryBytes.has b → machine.glide 1 .urlQuery b = some .urlQuery :=
    Machine.glide_all rfl 4 rfl rfl
  induction x with
  | nil => exact fun d y => Machine.steps_of_follow 5 rfl
  | cons b x ih =>
      obtain ⟨hend, htext⟩ := hx.of_cons
      rw [queryOk]
      by_cases hin : queryBytes.has b
      · rw [if_pos hin]
        exact .cons (hglide b hin) (ih htext)
      rw [if_neg hin]
      by_cases hhash : b = 35
      · subst hhash
        exact .cons (n := 2) (t := .urlFragment) rfl (readsUrl_fragment htext)
      · have hgood : ByteSet.has [(35, 35)] b = false := by
          rw [ByteSet.has_singleton]
          simpa using Ne.symm hhash
        rw [decide_eq_false hhash, Bool.false_and]
        exact .of_bad queryBytes _ rfl hend (by simpa using hin) hgood x

theorem readsUrl_path {x : Bytes} (hx : IsUrlText x) : ReadsUrl .urlPath x (pathOk x) := by
  have hglide : ∀ b, pathBytes.has b → machine.glide 1 .urlPath b = some .urlPath :=
    Machine.glide_all rfl 1 rfl rfl
  induction x with
  | nil => exact fun d y => Machine.steps_of_follow 6 rfl
  | cons b x ih =>
      obtain ⟨hend, htext⟩ := hx.of_cons
      rw [pathOk]
      by_cases hin : pathBytes.has b
      · rw [if_pos hin]
        exact .cons (hglide b hin) (ih htext)
      rw [if_neg hin]
      by_cases hquery : b = 63
      · subst hquery
        exact .cons (n := 2) (t := .urlQuery) rfl (readsUrl_query htext)
      rw [if_neg hquery]
      by_cases hhash : b = 35
      · subst hhash
        exact .cons (n := 2) (t := .urlFragment) rfl (readsUrl_fragment htext)
      · have hgood : ByteSet.has [(35, 35), (63, 63)] b = false := by
          have hall : allBytes fun b => b = 35 || b = 63 || !ByteSet.has [(35, 35), (63, 63)] b :=
            rfl
          simpa [hquery, hhash] using of_allBytes hall b
        rw [decide_eq_false hhash, Bool.false_and]
        exact .of_bad pathBytes _ rfl hend (by simpa using hin) hgood x

def serverLabel (behindAt : Bool) : Label := if behindAt then .urlServerWithAt else .urlServer

theorem readsUrl_server {x : Bytes} (hx : IsUrlText x) (behindAt : Bool) :
    ReadsUrl (serverLabel behindAt) x (serverOk behindAt x) := by
  have hglide : ∀ behindAt b, serverBytes.has b →
      machine.glide 1 (serverLabel behindAt) b = some .urlServer := by
    intro behindAt
    cases behindAt
    · exact Machine.glide_all (m := machine) (l := .urlServer) rfl 4 rfl rfl
    · exact Machine.glide_all (m := machine) (l := .urlServerWithAt) rfl 4 rfl rfl
  induction x generalizing behindAt with
  | nil =>
      intro d y
      cases behindAt <;> exact Machine.steps_of_follow 5 rfl
  | cons b x ih =>
      obtain ⟨hend, htext⟩ := hx.of_cons
      rw [serverOk]
      by_cases hin : serverBytes.has b
      · rw [if_pos hin]
        exact .cons (hglide behindAt b hin) (ih htext false)
      rw [if_neg hin]
      by_cases hslash : b = 47
      · subst hslash
        have htake : machine.glide 2 (serverLabel behindAt) 47 = some .urlPath := by
          cases behindAt <;> rfl
        exact .cons htake (readsUrl_path htext)
      rw [if_neg hslash]
      by_cases hquery : b = 63
      · subst hquery
        have htake : machine.glide 1 (serverLabel behindAt) 63 = some .urlQuery := by
          cases behindAt <;> rfl
        exact .cons htake (readsUrl_query htext)
      rw [if_neg hquery]
      by_cases hat : b = 64
      · subst hat
        cases behindAt with
        | true => exact .bad rfl x
        | false => exact .cons (n := 1) (t := .urlServerWithAt) rfl (ih htext true)
      · have hgood : ByteSet.has [(47, 47), (63, 64)] b = false := by
          have hall : allBytes fun b =>
              b = 47 || b = 63 || b = 64 || !ByteSet.has [(47, 47), (63, 64)] b := rfl
          simpa [hslash, hquery, hat] using of_allBytes hall b
        rw [decide_eq_false hat, Bool.false_and]
        cases behindAt
        · exact .of_bad serverBytes _ rfl hend (by simpa using hin) hgood x
        · exact .of_bad serverBytes _ rfl hend (by simpa using hin) hgood x

/-- The URL ends where it must go on. -/
theorem ReadsUrl.short {l : Label} (h : badAt l 32) : ReadsUrl l [] false := by
  intro d y
  exact Machine.derail_rejects (of_decide_eq_true h) (some .url) d (72 :: y)

theorem readsUrl_slashes {x : Bytes} (hx : IsUrlText x) :
    ReadsUrl .urlSchemaDelim x (slashesOk x) := by
  rcases x with _ | ⟨a, x⟩
  · exact .short rfl
  obtain ⟨hend, htext⟩ := hx.of_cons
  by_cases ha : a = 47
  · subst ha
    refine .cons (n := 1) (t := .urlSchemaDelim1) rfl ?_
    rcases x with _ | ⟨b, x⟩
    · exact .short rfl
    obtain ⟨hend', htext'⟩ := htext.of_cons
    by_cases hb : b = 47
    · subst hb
      exact .cons (n := 1) (t := .urlServer) rfl (readsUrl_server htext' false)
    · have hgood : ByteSet.has [(47, 47)] b = false := by
        rw [ByteSet.has_singleton]
        simpa using Ne.symm hb
      rw [slashesOk, decide_eq_false hb, Bool.and_false, Bool.false_and]
      exact .of_bad [] _ rfl hend' rfl hgood x
  · have hgood : ByteSet.has [(47, 47)] a = false := by
      rw [ByteSet.has_singleton]
      simpa using Ne.symm ha
    have hfalse : slashesOk (a :: x) = false := by
      rcases x with _ | ⟨b, x⟩
      · rfl
      · rw [slashesOk, decide_eq_false ha, Bool.false_and, Bool.false_and]
    rw [hfalse]
    exact .of_bad [] _ rfl hend rfl hgood x

theorem readsUrl_schema {x : Bytes} (hx : IsUrlText x) : ReadsUrl .urlSchema x (schemaOk x) := by
  have hglide : ∀ b, letters.has b → machine.glide 1 .urlSchema b = some .urlSchema :=
    Machine.glide_all rfl 2 rfl rfl
  induction x with
  | nil => exact .short rfl
  | cons b x ih =>
      obtain ⟨hend, htext⟩ := hx.of_cons
      rw [schemaOk]
      by_cases hin : letters.has b
      · rw [if_pos hin]
        exact .cons (hglide b hin) (ih htext)
      rw [if_neg hin]
      by_cases hcolon : b = 58
      · subst hcolon
        exact .cons (n := 2) (t := .urlSchemaDelim) rfl (readsUrl_slashes htext)
      · have hgood : ByteSet.has [(58, 58)] b = false := by
          rw [ByteSet.has_singleton]
          simpa using Ne.symm hcolon
        rw [decide_eq_false hcolon, Bool.false_and]
        exact .of_bad letters _ rfl hend (by simpa using hin) hgood x

theorem readsUrl_start {b : UInt8} {x : Bytes} (hx : IsUrlText (b :: x)) :
    ReadsUrl .urlStart (b :: x) (urlOk false (b :: x)) := by
  obtain ⟨hend, htext⟩ := hx.of_cons
  show ReadsUrl _ _ (if b = 42 ∨ b = 47 then pathOk x else letters.has b && schemaOk (b :: x))
  by_cases hpath : b = 42 ∨ b = 47
  · have htake : machine.glide 2 .urlStart b = some .urlPath := by
      rcases hpath with rfl | rfl <;> rfl
    rw [if_pos hpath]
    exact .cons htake (readsUrl_path htext)
  rw [if_neg hpath]
  cases hletter : letters.has b with
  | true =>
      have hskip : ∀ b, letters.has b → machine.skip 1 .urlStart b = .urlSchema :=
        Machine.skip_all rfl 2 rfl rfl
      intro d y
      have hgo := Machine.skip_steps (hskip b hletter) (some .url) d (x ++ 32 :: 72 :: y)
      exact .silent hgo (readsUrl_schema hx d y)
  | false =>
      have hgood : ByteSet.has [(42, 42), (47, 47)] b = false := by
        have hall : allBytes fun b => b = 42 || b = 47 || !ByteSet.has [(42, 42), (47, 47)] b :=
          rfl
        have h := of_allBytes hall b
        rw [not_or] at hpath
        simpa [hpath] using h
      exact .of_bad letters _ rfl hend hletter hgood x

/-- Tab and form feed, which are an error in front of a URL. -/
def tabBytes : ByteSet := [(9, 9), (12, 12)]

/-- In front of a URL. -/
theorem entry_outcome {entry opening first : Label}
    (hentry : node entry = .switch id [(chars ['\t', '\x0c'], eat .error2)] (peek opening))
    (hopening : node opening = .spanStart .url first) {b : UInt8} {x : Bytes} {ok : Bool}
    (hbad : tabBytes.has b → ok = false) (h : ReadsUrl first (b :: x) ok) (d : Internal)
    (y : Bytes) : UrlOutcome ⟨entry, 0, none, d⟩ d (b :: x) y ok := by
  cases htab : tabBytes.has b with
  | true =>
      have htake : ∀ b, tabBytes.has b → machine.glide 1 entry b = some .error2 :=
        Machine.glide_all (m := machine) hentry 0 rfl rfl
      rw [hbad htab]
      have hgo := Machine.glide_steps (htake b htab) (none : Option Span) d (x ++ 32 :: 72 :: y)
      exact hgo.rejects (.of_stop rfl)
  | false =>
      have hskip : ∀ b, !tabBytes.has b → machine.skip 1 entry b = opening :=
        Machine.skip_all (m := machine) hentry 1 rfl rfl
      have hgo := Machine.skip_steps (hskip b (by rw [htab]; rfl)) (none : Option Span) d
        (x ++ 32 :: 72 :: y)
      have hmove : machine.move ⟨opening, 0, none, d⟩ (b :: x ++ 32 :: 72 :: y).head?
          = .quiet ⟨first, 0, some .url, d⟩ [] := by
        simp [Machine.move, machine, hopening]
      exact .silent (hgo.trans (.of_quiet hmove)) (h d y)

/-- No URL begins with a tab or a form feed. -/
theorem urlOk_of_tab {b : UInt8} (h : tabBytes.has b) (connect : Bool) (x : Bytes) :
    urlOk connect (b :: x) = false := by
  have hb : b = 9 ∨ b = 12 := by
    have hall : allBytes fun b => !tabBytes.has b || b = 9 || b = 12 := rfl
    simpa [h] using of_allBytes hall b
  rcases hb with rfl | rfl <;> cases connect <;> rfl

/-- **A URL is read** when it is one that llhttp accepts, and otherwise it is an error. -/
theorem url_outcome (d : Internal) {x : Bytes} (hne : x ≠ []) (hx : IsUrlText x) (y : Bytes) :
    UrlOutcome ⟨.reqSpacesBeforeUrl, 0, none, d⟩ d x y (urlOk (d.method = 5) x) := by
  obtain ⟨b, x, rfl⟩ := List.exists_cons_of_ne_nil hne
  have hb := (hx b List.mem_cons_self).2.2
  have hskip : ∀ b, !(b = 32) → machine.skip 1 .reqSpacesBeforeUrl b = .invokeIsEqualMethod :=
    Machine.skip_all rfl 1 rfl rfl
  have hgo := Machine.skip_steps (hskip b (by simp [hb])) (none : Option Span) d (x ++ 32 :: 72 :: y)
  have hmethod := Machine.invoke_steps (m := machine) (l := .invokeIsEqualMethod) rfl
    (none : Option Span) d (b :: x ++ 32 :: 72 :: y)
  by_cases hconnect : d.method = 5
  · have hlookup : lookup [(0, Label.urlEntryNormal)] .urlEntryConnect (isEqualMethod d).2
        = .urlEntryConnect := by simp [isEqualMethod, hconnect, lookup]
    rw [hlookup] at hmethod
    refine .silent (hgo.trans hmethod) ?_
    rw [decide_eq_true hconnect]
    exact entry_outcome rfl rfl (fun h => urlOk_of_tab h true x) (readsUrl_server hx false) d y
  · have hlookup : lookup [(0, Label.urlEntryNormal)] .urlEntryConnect (isEqualMethod d).2
        = .urlEntryNormal := by simp [isEqualMethod, hconnect, lookup]
    rw [hlookup] at hmethod
    refine .silent (hgo.trans hmethod) ?_
    rw [decide_eq_false hconnect]
    exact entry_outcome rfl rfl (fun h => urlOk_of_tab h false x) (readsUrl_start hx) d y

/-! ## Versions

HTTP/0.9 to HTTP/2.0, of which llhttp takes the two digits and rejects all pairs but four. Behind a
version the line has to end. -/

/-- The versions that llhttp accepts, with their two numbers. -/
def httpVersions : List (Bytes × Nat × Nat) :=
  [(word ['0', '.', '9'], 0, 9), (word ['1', '.', '0'], 1, 0), (word ['1', '.', '1'], 1, 1),
    (word ['2', '.', '0'], 2, 0)]

theorem versions_follow (d : Internal) (y : Bytes) :
    httpVersions.map (fun v => machine.follow 11 ⟨.spanStartOnVersion, 0, none, d⟩ (v.1 ++ y)) =
      httpVersions.map fun v => (eatenAll (some .version) v.1 ++ [.report .versionComplete],
        ⟨.invokeLoadMethod1, 0, none, { d with httpMajor := v.2.1, httpMinor := v.2.2 }⟩, y) := rfl

/-- **A version is read**, and the line ends behind it. -/
theorem version_steps {d : Internal} (hd : d.method < 34) {v : Bytes × Nat × Nat}
    (hv : v ∈ httpVersions) {b : UInt8} (hb : b ≠ 32) (y : Bytes) :
    Steps machine ⟨.reqHttpStart, 0, none, d⟩
      (72 :: 84 :: 84 :: 80 :: 47 :: (v.1 ++ 13 :: 10 :: b :: y))
      (eatenAll (some .version) v.1 ++ [.report .versionComplete])
      ⟨.headerFieldStart, 0, none, { d with httpMajor := v.2.1, httpMinor := v.2.2 }⟩ (b :: y) := by
  have hhttp : Steps machine ⟨.reqHttpStart, 0, none, d⟩
      (72 :: 84 :: 84 :: 80 :: 47 :: (v.1 ++ 13 :: 10 :: b :: y)) []
      ⟨.invokeLoadMethod, 0, none, d⟩ (v.1 ++ 13 :: 10 :: b :: y) := Machine.steps_of_follow 5 rfl
  have hmethod := Machine.invoke_steps (m := machine) (l := .invokeLoadMethod) rfl
    (none : Option Span) d (v.1 ++ 13 :: 10 :: b :: y)
  have hallowed : ∀ k < 34, lookup (anyOf [0, 1, 2, 3, 4, 5, 6, 7, 8, 9, 10, 11, 12, 13, 14, 15, 16,
      17, 18, 19, 20, 21, 22, 23, 24, 25, 26, 27, 28, 29, 30, 31, 32, 33, 34]
      Label.spanStartOnVersion) .error63 k = .spanStartOnVersion := by decide
  have hlookup : lookup _ _ (loadMethod d).2 = _ := hallowed d.method hd
  have hnumbers := Machine.steps_of_follow 11
    (List.map_inj_left.mp (versions_follow d (13 :: 10 :: b :: y)) v hv)
  have hno : lookup [(34, Label.reqPriUpgrade)] .reqHttpComplete
      (loadMethod { d with httpMajor := v.2.1, httpMinor := v.2.2 }).2 = .reqHttpComplete := by
    have hne : 34 ≠ d.method := by omega
    simp [lookup, loadMethod, hne]
  have hagain := Machine.invoke_steps (m := machine) (l := .invokeLoadMethod1) rfl
    (none : Option Span) { d with httpMajor := v.2.1, httpMinor := v.2.2 } (13 :: 10 :: b :: y)
  have hline : Steps machine ⟨.reqHttpComplete, 0, none,
      { d with httpMajor := v.2.1, httpMinor := v.2.2 }⟩ (13 :: 10 :: b :: y) []
      ⟨.headersStart, 0, none, { d with httpMajor := v.2.1, httpMinor := v.2.2 }⟩ (b :: y) :=
    Machine.steps_of_follow 2 rfl
  have hskip : ∀ b, !(b = 32) → machine.skip 1 .headersStart b = .headerFieldStart :=
    Machine.skip_all rfl 1 rfl rfl
  have hgo := Machine.skip_steps (hskip b (by simp [hb])) (none : Option Span)
    { d with httpMajor := v.2.1, httpMinor := v.2.2 } y
  rw [hlookup] at hmethod
  rw [hno] at hagain
  exact hhttp.trans (hmethod.trans (hnumbers.silent (hagain.trans (hline.trans hgo))))

end Rslinker.Internal
