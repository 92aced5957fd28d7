import Rslinker.Basic.ScannerSteps

set_option autoImplicit false

/-! # Runs over pieces of the input

A scanner is a graph of nodes with an annotation that fits it: for every node the span that is open
there, whether it has just been opened, and whether a next byte is known to be there. From this

* no run overruns its piece, and every run ends (`run_isSome`);
* what a call does is what the same nodes do byte by byte (`visit_spec`, `run_spec`), so that it
  does not matter how the input is divided into pieces (`parse_congr`).
-/

namespace Rslinker.Scan

variable {N D K R : Type*}

/-! ## Scanners

The annotation is found by hand, once for a graph, and checked by computation (`Node.fits`), node
by node: an edge has to lead to a node with the same span, unless the node opens or closes one.
Nodes that only return an error are reached with any span open, and are exempt (`dead`). `fresh` is
for nodes right behind the opening of a span: a report there does not cut off bytes that are still
to be called back. -/

structure Annotation (N K : Type*) where
  /-- the span that is open -/
  span : N → Option K
  /-- it starts at the next byte -/
  fresh : N → Bool
  /-- there is a next byte -/
  looks : N → Bool
  /-- it returns an error for good, and any span may be open -/
  dead : N → Bool

section Fits

variable [DecidableEq K]

/-- What holds of a node also holds of the target of an edge behind which the span goes on. -/
def Annotation.keeps (a : Annotation N K) (l t : N) : Bool :=
  (a.dead t || decide (a.span t = a.span l)) && !a.fresh t

/-- The same for an edge on which the scanner stays in front of the same byte. -/
def Annotation.stays (a : Annotation N K) (l t : N) : Bool :=
  (a.dead t || decide (a.span t = a.span l)) && (!a.fresh t || a.fresh l) &&
    (!a.looks t || a.looks l)

def Node.isFinal : Node N D K R → Bool
  | .error _ _ none => true
  | _ => false

/-- The annotation fits what the node at `l` does. -/
def Node.fits (a : Annotation N K) (l : N) : Node N D K R → Bool
  | .switch _ cases otherwise =>
      (otherwise :: cases.map Prod.snd).all fun e =>
        a.keeps l e.target && !(e.advance && a.looks e.target)
  | .sequence _ word hit miss =>
      !word.isEmpty && !a.looks l && a.keeps l hit && !a.looks hit && a.keeps l miss
  | .consume target => !a.looks l && a.keeps l target && !a.looks target
  | .spanStart k target => decide (a.span l = none) && decide (a.span target = some k)
  | .spanEnd k advance target =>
      decide (a.span l = some k) && decide (a.span target = none) && !a.fresh target &&
        if advance then a.looks l && !a.looks target else !a.looks target || a.looks l
  | .invoke _ cases otherwise => (otherwise :: cases.map Prod.snd).all fun t => a.stays l t
  | .report _ target => (decide (a.span l = none) || a.fresh l) && a.stays l target
  | .error errno _ resume =>
      decide (errno ≠ 0) && resume.all fun t => decide (a.span t = a.span l) && !a.looks t

variable (N D K R) in
/-- A machine with an annotation that fits, whose moves settle. -/
structure Scanner extends Machine N D K R where
  annotation : Annotation N K
  fits : ∀ l, (node l).fits annotation l
  final : ∀ l, annotation.dead l → (node l).isFinal
  bound : Nat
  ends : toMachine.Settles bound

end Fits

/-! ## Pieces and events

What is called back of a span is a pair of positions in the piece. Its events are the bytes between
them, and `pending` are those of a span that is still open. Taking bytes moves them from the piece
to what is pending, and the end of a span turns what is pending into what has been called back. -/

def piece (buf : Bytes) (start stop : Nat) : Bytes := (buf.drop start).take (stop - start)

def Out.events (buf : Bytes) : Out K R → List (Event K R)
  | .span k start stop => (piece buf start stop).map (.byte k)
  | .report r => [.report r]

def events (buf : Bytes) (outs : List (Out K R)) : List (Event K R) := outs.flatMap (Out.events buf)

/-- The bytes of the open span up to a position. -/
def pending (buf : Bytes) (span : Option (K × Nat)) (pos : Nat) : List (Event K R) :=
  events buf (flush span pos)

def eatenAll (span : Option K) (x : Bytes) : List (Event K R) := x.flatMap (eaten span)

@[simp] theorem eatenAll_nil (span : Option K) : eatenAll (R := R) span [] = [] := rfl

theorem eatenAll_append (span : Option K) (x y : Bytes) :
    eatenAll (R := R) span (x ++ y) = eatenAll span x ++ eatenAll span y := List.flatMap_append

@[simp] theorem eatenAll_singleton (span : Option K) (b : UInt8) :
    eatenAll (R := R) span [b] = eaten span b := by
  simp [eatenAll]

@[simp] theorem eatenAll_none (x : Bytes) : eatenAll (R := R) (none : Option K) x = [] := by
  simp [eatenAll, eaten]

@[simp] theorem eatenAll_some (k : K) (x : Bytes) :
    eatenAll (R := R) (some k) x = x.map (.byte k) := by
  induction x with
  | nil => rfl
  | cons b x ih => simpa [eatenAll, eaten] using ih

@[simp] theorem events_nil (buf : Bytes) : events buf ([] : List (Out K R)) = [] := rfl

theorem events_append (buf : Bytes) (outs outs' : List (Out K R)) :
    events buf (outs ++ outs') = events buf outs ++ events buf outs' := List.flatMap_append

@[simp] theorem pending_none (buf : Bytes) (pos : Nat) :
    pending (R := R) buf (none : Option (K × Nat)) pos = [] := rfl

@[simp] theorem pending_some (buf : Bytes) (k : K) (start pos : Nat) :
    pending (R := R) buf (some (k, start)) pos = (piece buf start pos).map (.byte k) := by
  simp [pending, events, flush, Out.events]

/-- A span that has just been opened has no bytes yet. -/
theorem piece_self (buf : Bytes) (pos : Nat) : piece buf pos pos = [] := by simp [piece]

theorem piece_advance {buf u v : Bytes} {start pos : Nat} (hstart : start ≤ pos)
    (hdrop : buf.drop pos = u ++ v) : piece buf start (pos + u.length) = piece buf start pos ++ u := by
  have hlen : pos + u.length - start = pos - start + u.length := by omega
  have hrest : (buf.drop start).drop (pos - start) = u ++ v := by
    rw [List.drop_drop, Nat.add_sub_cancel' hstart, hdrop]
  rw [piece, piece, hlen, List.take_add, hrest, List.take_left]

/-- When bytes are taken, they come to those that are pending. -/
theorem pending_advance {buf u v : Bytes} {span : Option (K × Nat)} {pos : Nat}
    (hstart : ∀ k start, span = some (k, start) → start ≤ pos) (hdrop : buf.drop pos = u ++ v) :
    pending (R := R) buf span (pos + u.length) =
      pending buf span pos ++ eatenAll (span.map Prod.fst) u := by
  rcases span with _ | ⟨k, start⟩
  · simp
  · simp [piece_advance (hstart k start rfl) hdrop]

/-! ## Loops of a node

`sequence` and `consume` pass many bytes in one visit. Byte by byte each of them is a move of its
own, and the visit is shown to be as many moves. -/

section Loops

variable {m : Machine N D K R} {c : Config N D K}

/-- How a comparison with a word goes byte by byte. -/
def Match.Spec (m : Machine N D K R) (c : Config N D K) (word : Bytes) (hit miss : N) (taken : Nat)
    (x : Bytes) : Match → Prop
  | .complete n => ∃ u v, x = u ++ v ∧ u ≠ [] ∧ n = taken + u.length ∧
      Steps m c x (eatenAll c.span u) { c with label := hit, index := 0 } v
  | .mismatch n => ∃ u v, x = u ++ v ∧ v ≠ [] ∧ n = taken + u.length ∧
      Steps m c x (eatenAll c.span u) { c with label := miss, index := 0 } v
  | .pause n index => n = taken + x.length ∧ index < word.length ∧
      Steps m c x (eatenAll c.span x) { c with index := index } []
  | .overrun => False

theorem matchSequence_spec {fold : UInt8 → UInt8} {word : Bytes} {hit miss : N}
    (hnode : m.node c.label = .sequence fold word hit miss) (hindex : c.index < word.length)
    (taken : Nat) (x : Bytes) :
    (matchSequence fold word c.index taken x).Spec m c word hit miss taken x := by
  induction x generalizing c taken with
  | nil => exact ⟨rfl, hindex, .refl c []⟩
  | cons b x ih =>
      have hget : word[c.index]? = some word[c.index] := List.getElem?_eq_getElem hindex
      simp only [matchSequence, hget]
      by_cases heq : fold b = word[c.index]
      · have hword : word[c.index]? = some (fold b) := by rw [hget, heq]
        rw [if_pos heq]
        by_cases hlast : c.index + 1 = word.length
        · -- the last byte of the word
          rw [if_pos hlast]
          have hmove : m.move c (some b) = .eat { c with label := hit, index := 0 } (eaten c.span b) := by
            simp [Machine.move, hnode, hword, hlast]
          exact ⟨[b], x, rfl, by simp, by simp, by simpa [eatenAll] using Steps.of_eat hmove⟩
        · rw [if_neg hlast]
          have hmove : m.move c (some b) = .eat { c with index := c.index + 1 } (eaten c.span b) := by
            simp [Machine.move, hnode, hword, hlast]
          have hrest := @ih { c with index := c.index + 1 } hnode
            (Nat.lt_of_le_of_ne hindex hlast) (taken + 1)
          simp only at hrest
          cases hmatch : matchSequence fold word (c.index + 1) (taken + 1) x with
          | complete n =>
              rw [hmatch] at hrest
              obtain ⟨u, v, hx, -, rfl, hsteps⟩ := hrest
              exact ⟨b :: u, v, by rw [hx]; rfl, by simp, by simp; omega, .eat hmove hsteps⟩
          | mismatch n =>
              rw [hmatch] at hrest
              obtain ⟨u, v, hx, hv, rfl, hsteps⟩ := hrest
              exact ⟨b :: u, v, by rw [hx]; rfl, hv, by simp; omega, .eat hmove hsteps⟩
          | pause n index =>
              rw [hmatch] at hrest
              obtain ⟨rfl, hlt, hsteps⟩ := hrest
              exact ⟨by simp; omega, hlt, .eat hmove hsteps⟩
          | overrun =>
              rw [hmatch] at hrest
              exact hrest
      · rw [if_neg heq]
        have hword : word[c.index]? ≠ some (fold b) := by
          rw [hget]
          simpa using fun h => heq h.symm
        have hmove : m.move c (some b) = .quiet { c with label := miss, index := 0 } [] := by
          simp [Machine.move, hnode, hword]
        exact ⟨[], b :: x, rfl, by simp, rfl, Steps.of_quiet hmove⟩

/-- `consume` takes fewer bytes than it needs. -/
theorem steps_consume_part {target : N} (hnode : m.node c.label = .consume target) {u : Bytes}
    (hu : u.length < m.need c.data) (v : Bytes) :
    Steps m c (u ++ v) (eatenAll c.span u) { c with data := m.spend c.data u.length } v := by
  induction u generalizing c with
  | nil =>
      simp only [List.length_nil, m.spend_zero]
      exact .refl c v
  | cons b u ih =>
      rw [List.length_cons] at hu
      have hmove : m.move c (some b)
          = .eat { c with data := m.spend c.data 1 } (eaten c.span b) := by
        simp only [Machine.move, hnode]
        rw [if_neg (by omega), if_neg (by omega)]
      have hsteps := @ih { c with data := m.spend c.data 1 } hnode (by simp only [m.need_spend]; omega)
      simp only [m.spend_spend, Nat.add_comm 1] at hsteps
      exact .eat hmove hsteps

/-- `consume` takes what it needs. -/
theorem steps_consume_all {target : N} (hnode : m.node c.label = .consume target) {u : Bytes}
    (hu : u.length = m.need c.data) (v : Bytes) :
    Steps m c (u ++ v) (eatenAll c.span u)
      { c with label := target, data := m.spend c.data u.length } v := by
  rcases List.eq_nil_or_concat u with rfl | ⟨u, b, rfl⟩
  · have hmove : m.move c v.head? = .quiet { c with label := target } [] := by
      have hneed : m.need c.data = 0 := hu.symm
      simp [Machine.move, hnode, hneed]
    simp only [List.length_nil, m.spend_zero]
    exact .of_quiet hmove
  · -- the last byte leads on
    rw [List.concat_eq_append, List.length_append, List.length_singleton] at hu
    have hpart := steps_consume_part hnode (u := u) (by omega) (b :: v)
    have hneed : m.need (m.spend c.data u.length) = 1 := by
      rw [m.need_spend]
      omega
    have hmove : m.move { c with data := m.spend c.data u.length } (some b)
        = .eat { c with label := target, data := m.spend c.data (u.length + 1) } (eaten c.span b) := by
      simp only [Machine.move, hnode]
      rw [if_neg (by omega), if_pos hneed, m.spend_spend]
    have hsteps := hpart.trans (.of_eat hmove)
    simpa [eatenAll] using hsteps

end Loops

/-! ## One node

A visit that goes on has made moves from the configuration of its cursor to that of the next one.
What it has called back together with what is pending now are the events of these moves and what
was pending before; and it has taken bytes, or gone where the node may go without (`Goes`). A visit
that waits has done the same up to the end of the piece, and the node cannot move there (`Waits`).
There is one lemma for each kind of node, and `visit_spec` puts them together. -/

def Node.IndexOk : Node N D K R → Nat → Prop
  | .sequence _ word _ _, index => index < word.length
  | _, index => index = 0

def Cursor.config (c : Cursor N D K) : Config N D K := ⟨c.label, c.index, c.span.map Prod.fst, c.data⟩

section Visits

variable [DecidableEq K] {sc : Scanner N D K R} {buf : Bytes} {c c' : Cursor N D K}
  {outs : List (Out K R)}

/-- The cursor is as the annotation says. -/
structure Cursor.Ok (sc : Scanner N D K R) (buf : Bytes) (c : Cursor N D K) : Prop where
  pos : c.pos ≤ buf.length
  span : sc.annotation.dead c.label ∨ c.span.map Prod.fst = sc.annotation.span c.label
  start : ∀ k start, c.span = some (k, start) → start ≤ c.pos
  fresh : sc.annotation.fresh c.label → ∀ k start, c.span = some (k, start) → start = c.pos
  looks : sc.annotation.looks c.label → c.pos < buf.length
  index : (sc.node c.label).IndexOk c.index

/-- A word is entered at its beginning. -/
theorem Scanner.indexOk_zero (sc : Scanner N D K R) (l : N) : (sc.node l).IndexOk 0 := by
  have hfits := sc.fits l
  cases hnode : sc.node l with
  | sequence fold word hit miss =>
      simp only [hnode, Node.fits, Bool.and_eq_true, Bool.not_eq_true', List.isEmpty_eq_false_iff]
        at hfits
      exact List.length_pos_iff.mpr hfits.1.1.1.1
  | switch | consume | spanStart | spanEnd | invoke | report | error => rfl

/-- Where the scanner goes on, the span is the one of the annotation. -/
theorem Cursor.Ok.span_eq (hc : c.Ok sc buf) (hfinal : (sc.node c.label).isFinal = false) :
    c.span.map Prod.fst = sc.annotation.span c.label := by
  refine hc.span.resolve_left fun hdead => ?_
  rw [sc.final c.label hdead] at hfinal
  cases hfinal

/-- On an edge between two nodes the span stays. -/
theorem Cursor.Ok.span_edge (hc : c.Ok sc buf) (hfinal : (sc.node c.label).isFinal = false) {t : N}
    (ht : sc.annotation.dead t ∨ sc.annotation.span t = sc.annotation.span c.label) :
    sc.annotation.dead t ∨ c.span.map Prod.fst = sc.annotation.span t :=
  ht.imp_right fun h => (hc.span_eq hfinal).trans h.symm

theorem Cursor.Ok.length (hc : c.Ok sc buf) {u v : Bytes} (hdrop : buf.drop c.pos = u ++ v) :
    c.pos + u.length + v.length = buf.length := by
  have hlen := congrArg List.length hdrop
  rw [List.length_drop, List.length_append] at hlen
  have hpos := hc.pos
  omega

/-- Bytes are taken, and the span goes on. -/
theorem Cursor.Ok.keeps (hc : c.Ok sc buf) (hfinal : (sc.node c.label).isFinal = false) {t : N}
    (ht : sc.annotation.keeps c.label t)
    {u v : Bytes} (hdrop : buf.drop c.pos = u ++ v) (hlooks : sc.annotation.looks t → v ≠ [])
    (data : D) : Cursor.Ok sc buf ⟨t, c.pos + u.length, 0, c.span, data⟩ := by
  simp only [Bool.and_eq_true, Bool.or_eq_true, decide_eq_true_eq, Bool.not_eq_true',
    Annotation.keeps] at ht
  have hlen := hc.length hdrop
  refine ⟨by simp only; omega, hc.span_edge hfinal ht.1, ?_, ?_, ?_, sc.indexOk_zero t⟩
  · intro k start hspan
    exact Nat.le_trans (hc.start k start hspan) (Nat.le_add_right _ _)
  · intro hfresh
    rw [ht.2] at hfresh
    cases hfresh
  · intro h
    have hv := List.length_pos_iff.mpr (hlooks h)
    show c.pos + u.length < buf.length
    omega

/-- Nothing is taken, and the span goes on. -/
theorem Cursor.Ok.stays (hc : c.Ok sc buf) (hfinal : (sc.node c.label).isFinal = false) {t : N}
    (ht : sc.annotation.stays c.label t) (data : D) :
    Cursor.Ok sc buf ⟨t, c.pos, 0, c.span, data⟩ := by
  simp only [Bool.and_eq_true, decide_eq_true_eq, Bool.or_eq_true, Bool.not_eq_true',
    Annotation.stays] at ht
  obtain ⟨⟨hspan, hfresh⟩, hlooks⟩ := ht
  refine ⟨hc.pos, hc.span_edge hfinal hspan, hc.start, ?_, ?_, sc.indexOk_zero t⟩
  · intro h
    exact hc.fresh (hfresh.resolve_left (by simp [h]))
  · intro h
    exact hc.looks (hlooks.resolve_left (by simp [h]))

structure Goes (sc : Scanner N D K R) (buf : Bytes) (c c' : Cursor N D K) (outs : List (Out K R)) :
    Prop where
  ok : c'.Ok sc buf
  steps : ∃ es, Steps sc.toMachine c.config (buf.drop c.pos) es c'.config (buf.drop c'.pos) ∧
    pending buf c.span c.pos ++ es = events buf outs ++ pending buf c'.span c'.pos
  progress : c.pos < c'.pos ∨ c'.pos = c.pos ∧ c'.label ∈ (sc.node c.label).quietTargets

structure Waits (sc : Scanner N D K R) (buf : Bytes) (c c' : Cursor N D K) : Prop where
  span : c'.span.map Prod.fst = sc.annotation.span c'.label
  looks : ¬ sc.annotation.looks c'.label
  index : (sc.node c'.label).IndexOk c'.index
  reads : ∃ es, Reads sc.toMachine c.config (buf.drop c.pos) es c'.config ∧
    pending buf c.span c.pos ++ es = pending buf c'.span buf.length

inductive Visit.Spec (sc : Scanner N D K R) (buf : Bytes) (c : Cursor N D K) :
    Visit N D K R → Prop
  | goto {c' : Cursor N D K} {outs : List (Out K R)} (h : Goes sc buf c c' outs) :
      Spec sc buf c (.goto c' outs)
  | pause {c' : Cursor N D K} (h : Waits sc buf c c') : Spec sc buf c (.halt (.pause c'))
  | error {errno : Nat} {reason : String} {resume : Option N}
      (h : sc.node c.label = .error errno reason resume) :
      Spec sc buf c (.halt (.error errno reason resume c))

theorem drop_of_getElem? {x : Bytes} {n : Nat} {b : UInt8} (h : x[n]? = some b) :
    x.drop n = [b] ++ x.drop (n + 1) := by
  obtain ⟨hlt, rfl⟩ := List.getElem?_eq_some_iff.mp h
  exact List.drop_eq_getElem_cons hlt

/-- Bytes are taken while the span goes on. -/
theorem Goes.of_keeps (hc : c.Ok sc buf) (hfinal : (sc.node c.label).isFinal = false) {t : N}
    (ht : sc.annotation.keeps c.label t) {u v : Bytes}
    (hdrop : buf.drop c.pos = u ++ v) (hlooks : sc.annotation.looks t → v ≠ []) (data : D)
    (hsteps : Steps sc.toMachine c.config (u ++ v) (eatenAll (c.span.map Prod.fst) u)
      ⟨t, 0, c.span.map Prod.fst, data⟩ v)
    (hprogress : u ≠ [] ∨ t ∈ (sc.node c.label).quietTargets) :
    Goes sc buf c ⟨t, c.pos + u.length, 0, c.span, data⟩ [] := by
  have hrest : buf.drop (c.pos + u.length) = v := by
    rw [← List.drop_drop, hdrop, List.drop_left]
  refine ⟨hc.keeps hfinal ht hdrop hlooks data, ⟨eatenAll (c.span.map Prod.fst) u, ?_, ?_⟩, ?_⟩
  · simpa only [hrest, hdrop, Cursor.config] using hsteps
  · simp only [events_nil, List.nil_append, pending_advance hc.start hdrop]
  · rcases u.eq_nil_or_concat with rfl | ⟨u, b, rfl⟩
    · exact .inr ⟨rfl, hprogress.resolve_left (by simp)⟩
    · left
      simp only [List.concat_eq_append, List.length_append, List.length_singleton]
      omega

/-- Nothing is taken, and nothing is pending when something is reported. -/
theorem Goes.of_stays (hc : c.Ok sc buf) (hfinal : (sc.node c.label).isFinal = false) {t : N}
    (ht : sc.annotation.stays c.label t) {data : D}
    (houts : outs = [] ∨ pending (R := R) buf c.span c.pos = [])
    (hmove : sc.move c.config (buf.drop c.pos).head? =
      .quiet ⟨t, 0, c.span.map Prod.fst, data⟩ (events buf outs))
    (hprogress : t ∈ (sc.node c.label).quietTargets) :
    Goes sc buf c ⟨t, c.pos, 0, c.span, data⟩ outs := by
  refine ⟨hc.stays hfinal ht data, ⟨events buf outs, .of_quiet hmove, ?_⟩, .inr ⟨rfl, hprogress⟩⟩
  rcases houts with rfl | hnil
  · simp
  · simp only [hnil, List.nil_append, List.append_nil]

theorem Goes.spec {c : Cursor N D K} {v : Visit N D K R} {c' : Cursor N D K}
    (h : Goes sc buf c c' outs) (hv : v = .goto c' outs) : v.Spec sc buf c := hv ▸ .goto h

/-- At the end of the piece a node waits. -/
theorem Waits.of_end (hc : c.Ok sc buf) (hfinal : (sc.node c.label).isFinal = false) (hend : c.pos = buf.length)
    (hwait : sc.move c.config none = .block) : Waits sc buf c c := by
  have hnil : buf.drop c.pos = [] := by rw [hend, List.drop_length]
  refine ⟨hc.span_eq hfinal, ?_, hc.index, [], ⟨hnil ▸ .refl _ _, hwait⟩, by rw [List.append_nil, hend]⟩
  intro hlooks
  exact absurd hend (Nat.ne_of_lt (hc.looks hlooks))

theorem spec_switch (hc : c.Ok sc buf) {fold : UInt8 → UInt8} {cases : List (ByteSet × Edge N)}
    {otherwise : Edge N} (hnode : sc.node c.label = .switch fold cases otherwise) :
    (sc.visit buf c).Spec sc buf c := by
  have hfits := sc.fits c.label
  have hfinal : (sc.node c.label).isFinal = false := by rw [hnode]; rfl
  simp only [hnode, Node.fits, List.all_eq_true, Bool.and_eq_true, Bool.not_eq_true'] at hfits
  have hindex : c.index = 0 := by simpa [hnode, Node.IndexOk] using hc.index
  rcases hget : buf[c.pos]? with _ | b
  · have hend : c.pos = buf.length := Nat.le_antisymm hc.pos (List.getElem?_eq_none_iff.mp hget)
    have hvisit : sc.visit buf c = .halt (.pause c) := by
      simp [Machine.visit, hnode, hend]
    rw [hvisit]
    exact .pause (.of_end hc hfinal hend (by simp [Machine.move, Cursor.config, hnode]))
  · have hdrop := drop_of_getElem? hget
    obtain ⟨hkeeps, hlooks⟩ := hfits _ (choose_mem cases otherwise (fold b))
    cases hadvance : (choose cases otherwise (fold b)).advance with
    | true =>
        refine Goes.spec (Goes.of_keeps hc hfinal hkeeps hdrop ?_ c.data ?_ (.inl (by simp))) ?_
        · simp [hadvance] at hlooks
          simp [hlooks]
        · refine Steps.of_eat ?_
          simp [Machine.move, Cursor.config, hnode, hadvance, hindex]
        · simp [Machine.visit, hnode, hget, hadvance, hindex, hc.pos]
    | false =>
        refine Goes.spec (Goes.of_keeps hc hfinal hkeeps (List.nil_append _).symm ?_ c.data ?_ (.inr ?_)) ?_
        · simp [hdrop]
        · refine Steps.of_quiet ?_
          simp [Machine.move, Cursor.config, hnode, hadvance, hindex, hdrop]
        · rw [hnode]
          simp only [Node.quietTargets, List.mem_map, List.mem_filter]
          exact ⟨_, ⟨choose_mem cases otherwise (fold b), by simp [hadvance]⟩, rfl⟩
        · simp [Machine.visit, hnode, hget, hadvance, hindex, hc.pos]

theorem spec_sequence (hc : c.Ok sc buf) {fold : UInt8 → UInt8} {word : Bytes} {hit miss : N}
    (hnode : sc.node c.label = .sequence fold word hit miss) : (sc.visit buf c).Spec sc buf c := by
  have hfits := sc.fits c.label
  have hfinal : (sc.node c.label).isFinal = false := by rw [hnode]; rfl
  simp only [hnode, Node.fits, Bool.and_eq_true, Bool.not_eq_true'] at hfits
  obtain ⟨⟨⟨⟨-, hlook⟩, hhit⟩, hlooks⟩, hmiss⟩ := hfits
  have hindex : c.index < word.length := by simpa [hnode, Node.IndexOk] using hc.index
  have hspec := matchSequence_spec (c := c.config) (m := sc.toMachine) hnode hindex 0
    (buf.drop c.pos)
  simp only [Cursor.config] at hspec
  cases hmatch : matchSequence fold word c.index 0 (buf.drop c.pos) with
  | complete n =>
      rw [hmatch] at hspec
      obtain ⟨u, v, hdrop, hu, rfl, hsteps⟩ := hspec
      rw [hdrop] at hsteps
      refine Goes.spec (Goes.of_keeps hc hfinal hhit hdrop (by simp [hlooks]) c.data hsteps (.inl hu)) ?_
      simp [Machine.visit, hnode, hmatch, hc.pos]
  | mismatch n =>
      rw [hmatch] at hspec
      obtain ⟨u, v, hdrop, hv, rfl, hsteps⟩ := hspec
      rw [hdrop] at hsteps
      refine Goes.spec (Goes.of_keeps hc hfinal hmiss hdrop (fun _ => hv) c.data hsteps (.inr ?_)) ?_
      · simp [hnode, Node.quietTargets]
      · simp [Machine.visit, hnode, hmatch, hc.pos]
  | pause n index =>
      rw [hmatch] at hspec
      obtain ⟨rfl, hlt, hsteps⟩ := hspec
      have hvisit : sc.visit buf c = .halt (.pause ⟨c.label, buf.length, index, c.span, c.data⟩) := by
        simp [Machine.visit, hnode, hmatch, hc.pos]
      rw [hvisit]
      refine .pause ⟨hc.span_eq hfinal, ?_, by simpa [hnode, Node.IndexOk] using hlt, _, ⟨hsteps, ?_⟩, ?_⟩
      · simp [hlook]
      · simp [Machine.move, Cursor.config, hnode]
      · have hadvance := pending_advance (R := R) hc.start
          (show buf.drop c.pos = buf.drop c.pos ++ [] by simp)
        rw [List.length_drop, Nat.add_sub_cancel' hc.pos] at hadvance
        exact hadvance.symm
  | overrun =>
      rw [hmatch] at hspec
      exact hspec.elim

theorem spec_consume (hc : c.Ok sc buf) {target : N} (hnode : sc.node c.label = .consume target) :
    (sc.visit buf c).Spec sc buf c := by
  have hfits := sc.fits c.label
  have hfinal : (sc.node c.label).isFinal = false := by rw [hnode]; rfl
  simp only [hnode, Node.fits, Bool.and_eq_true, Bool.not_eq_true'] at hfits
  obtain ⟨⟨hlook, hkeeps⟩, hlooks⟩ := hfits
  have hindex : c.index = 0 := by simpa [hnode, Node.IndexOk] using hc.index
  have hlength : (buf.drop c.pos).length = buf.length - c.pos := List.length_drop
  by_cases hneed : sc.need c.data ≤ buf.length - c.pos
  · have htake : ((buf.drop c.pos).take (sc.need c.data)).length = sc.need c.data := by
      rw [List.length_take, hlength, Nat.min_eq_left hneed]
    have hdrop := (List.take_append_drop (sc.need c.data) (buf.drop c.pos)).symm
    have hsteps := steps_consume_all (c := c.config) (m := sc.toMachine) hnode htake
      ((buf.drop c.pos).drop (sc.need c.data))
    simp only [Cursor.config, hindex] at hsteps
    have hgoes := Goes.of_keeps hc hfinal hkeeps hdrop (by simp [hlooks]) _
      (by simpa only [Cursor.config, hindex] using hsteps)
      (.inr (by simp [hnode, Node.quietTargets]))
    refine hgoes.spec ?_
    simp [Machine.visit, hnode, hc.pos, hneed, hindex, htake]
  · have hpart := steps_consume_part (c := c.config) (m := sc.toMachine) hnode (u := buf.drop c.pos)
      (by rw [hlength]; exact Nat.lt_of_not_le hneed) []
    rw [List.append_nil, hlength] at hpart
    have hvisit : sc.visit buf c
        = .halt (.pause { c with data := sc.spend c.data (buf.length - c.pos) }) := by
      simp [Machine.visit, hnode, hc.pos, hneed]
    rw [hvisit]
    refine .pause ⟨hc.span_eq hfinal, by simp [hlook], hc.index, _, ⟨hpart, ?_⟩, ?_⟩
    · simp only [Machine.move, Cursor.config, hnode, sc.need_spend]
      rw [if_neg (by omega)]
    · have hadvance := pending_advance (R := R) hc.start
        (show buf.drop c.pos = buf.drop c.pos ++ [] by simp)
      rw [hlength, Nat.add_sub_cancel' hc.pos] at hadvance
      exact hadvance.symm

theorem spec_spanStart (hc : c.Ok sc buf) {k : K} {target : N}
    (hnode : sc.node c.label = .spanStart k target) : (sc.visit buf c).Spec sc buf c := by
  have hfits := sc.fits c.label
  have hfinal : (sc.node c.label).isFinal = false := by rw [hnode]; rfl
  simp only [hnode, Node.fits, Bool.and_eq_true, decide_eq_true_eq] at hfits
  have hindex : c.index = 0 := by simpa [hnode, Node.IndexOk] using hc.index
  have hspan : c.span = none := by
    have hspan := hc.span_eq hfinal
    rw [hfits.1, Option.map_eq_none_iff] at hspan
    exact hspan
  by_cases hend : c.pos = buf.length
  · have hvisit : sc.visit buf c = .halt (.pause c) := by simp [Machine.visit, hnode, hend]
    rw [hvisit]
    exact .pause (.of_end hc hfinal hend (by simp [Machine.move, Cursor.config, hnode]))
  · have hlt : c.pos < buf.length := Nat.lt_of_le_of_ne hc.pos hend
    have hmove : sc.move c.config (buf.drop c.pos).head?
        = .quiet ⟨target, 0, some k, c.data⟩ [] := by
      simp [Machine.move, Cursor.config, hnode, hindex, List.getElem?_eq_getElem hlt]
    have hok : Cursor.Ok sc buf ⟨target, c.pos, 0, some (k, c.pos), c.data⟩ := by
      refine ⟨hc.pos, .inr (by simp [hfits.2]), ?_, ?_, fun _ => hlt, sc.indexOk_zero target⟩
      · rintro _ _ ⟨⟩
        exact Nat.le_refl _
      · rintro - _ _ ⟨⟩
        rfl
    have hgoes : Goes sc buf c ⟨target, c.pos, 0, some (k, c.pos), c.data⟩ [] :=
      ⟨hok, ⟨[], .of_quiet hmove, by simp [hspan, piece_self]⟩,
        .inr ⟨rfl, by simp [hnode, Node.quietTargets]⟩⟩
    refine hgoes.spec ?_
    simp [Machine.visit, hnode, hend, hindex, hc.pos]

theorem spec_spanEnd (hc : c.Ok sc buf) {k : K} {advance : Bool} {target : N}
    (hnode : sc.node c.label = .spanEnd k advance target) : (sc.visit buf c).Spec sc buf c := by
  have hfits := sc.fits c.label
  have hfinal : (sc.node c.label).isFinal = false := by rw [hnode]; rfl
  simp only [hnode, Node.fits, Bool.and_eq_true, decide_eq_true_eq, Bool.not_eq_true'] at hfits
  obtain ⟨⟨⟨hspan, htarget⟩, hfresh⟩, hlooks⟩ := hfits
  have hindex : c.index = 0 := by simpa [hnode, Node.IndexOk] using hc.index
  obtain ⟨⟨k', start⟩, hstart, hk⟩ := Option.map_eq_some_iff.mp ((hc.span_eq hfinal).trans hspan)
  obtain rfl : k' = k := hk
  have hevents : pending (R := R) buf c.span c.pos = events buf [.span k' start c.pos] := by
    rw [hstart]
    rfl
  cases advance with
  | true =>
      simp only [if_true, Bool.and_eq_true, Bool.not_eq_true'] at hlooks
      have hlt : c.pos < buf.length := hc.looks hlooks.1
      have hdrop := drop_of_getElem? (List.getElem?_eq_getElem hlt)
      have hok : Cursor.Ok sc buf ⟨target, c.pos + 1, 0, none, c.data⟩ :=
        ⟨hlt, .inr (by simp [htarget]), by simp, by simp [hfresh], by simp [hlooks.2],
          sc.indexOk_zero target⟩
      have hmove : sc.move c.config (some buf[c.pos]) = .eat ⟨target, 0, none, c.data⟩ [] := by
        simp [Machine.move, Cursor.config, hnode, hindex]
      have hgoes : Goes sc buf c ⟨target, c.pos + 1, 0, none, c.data⟩ [.span k' start c.pos] := by
        refine ⟨hok, ⟨[], ?_, by simp [hevents]⟩, .inl (Nat.lt_succ_self _)⟩
        rw [hdrop]
        exact .of_eat hmove
      refine hgoes.spec ?_
      simp [Machine.visit, hnode, hindex, hc.pos, hstart]
  | false =>
      simp only [Bool.false_eq_true, if_false, Bool.or_eq_true, Bool.not_eq_true'] at hlooks
      have hok : Cursor.Ok sc buf ⟨target, c.pos, 0, none, c.data⟩ :=
        ⟨hc.pos, .inr (by simp [htarget]), by simp, by simp [hfresh],
          fun h => hc.looks (hlooks.resolve_left (by simp [h])), sc.indexOk_zero target⟩
      have hmove : sc.move c.config (buf.drop c.pos).head? = .quiet ⟨target, 0, none, c.data⟩ [] := by
        simp [Machine.move, Cursor.config, hnode, hindex]
      have hgoes : Goes sc buf c ⟨target, c.pos, 0, none, c.data⟩ [.span k' start c.pos] :=
        ⟨hok, ⟨[], .of_quiet hmove, by simp [hevents]⟩,
          .inr ⟨rfl, by simp [hnode, Node.quietTargets]⟩⟩
      refine hgoes.spec ?_
      simp [Machine.visit, hnode, hindex, hc.pos, hstart]

theorem spec_invoke (hc : c.Ok sc buf) {f : D → D × Nat} {cases : List (Nat × N)} {otherwise : N}
    (hnode : sc.node c.label = .invoke f cases otherwise) : (sc.visit buf c).Spec sc buf c := by
  have hfits := sc.fits c.label
  have hfinal : (sc.node c.label).isFinal = false := by rw [hnode]; rfl
  simp only [hnode, Node.fits, List.all_eq_true] at hfits
  have hindex : c.index = 0 := by simpa [hnode, Node.IndexOk] using hc.index
  have htarget := lookup_mem cases otherwise (f c.data).2
  have hmove : sc.move c.config (buf.drop c.pos).head? =
      .quiet ⟨lookup cases otherwise (f c.data).2, 0, c.span.map Prod.fst, (f c.data).1⟩
        (events buf []) := by
    simp [Machine.move, Cursor.config, hnode, hindex]
  have hgoes := Goes.of_stays hc hfinal (hfits _ htarget) (.inl rfl) hmove (by rw [hnode]; exact htarget)
  refine hgoes.spec ?_
  simp [Machine.visit, hnode, hindex, hc.pos]

theorem spec_report (hc : c.Ok sc buf) {r : R} {target : N}
    (hnode : sc.node c.label = .report r target) : (sc.visit buf c).Spec sc buf c := by
  have hfits := sc.fits c.label
  have hfinal : (sc.node c.label).isFinal = false := by rw [hnode]; rfl
  simp only [hnode, Node.fits, Bool.and_eq_true, Bool.or_eq_true, decide_eq_true_eq] at hfits
  have hindex : c.index = 0 := by simpa [hnode, Node.IndexOk] using hc.index
  have hpending : pending (R := R) buf c.span c.pos = [] := by
    rcases hspan : c.span with _ | ⟨k, start⟩
    · rfl
    · rcases hfits.1 with hnone | hfresh
      · have hmap := hc.span_eq hfinal
        rw [hnone, hspan] at hmap
        cases hmap
      · rw [hc.fresh hfresh k start hspan, pending_some, piece_self, List.map_nil]
  have hmove : sc.move c.config (buf.drop c.pos).head? =
      .quiet ⟨target, 0, c.span.map Prod.fst, c.data⟩ (events buf [.report r]) := by
    simp [Machine.move, Cursor.config, hnode, hindex, events, Out.events]
  have hgoes := Goes.of_stays hc hfinal hfits.2 (.inr hpending) hmove (by simp [hnode, Node.quietTargets])
  refine hgoes.spec ?_
  simp [Machine.visit, hnode, hindex, hc.pos]

/-- **What a visit does.** -/
theorem visit_spec (hc : c.Ok sc buf) : (sc.visit buf c).Spec sc buf c := by
  cases hnode : sc.node c.label with
  | switch => exact spec_switch hc hnode
  | sequence => exact spec_sequence hc hnode
  | consume => exact spec_consume hc hnode
  | spanStart => exact spec_spanStart hc hnode
  | spanEnd => exact spec_spanEnd hc hnode
  | invoke => exact spec_invoke hc hnode
  | report => exact spec_report hc hnode
  | error errno reason resume =>
      have hvisit : sc.visit buf c = .halt (.error errno reason resume c) := by
        simp [Machine.visit, hnode, hc.pos]
      rw [hvisit]
      exact .error hnode

end Visits

end Rslinker.Scan
