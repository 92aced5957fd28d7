import Rslinker.Basic.Scanner

set_option autoImplicit false

/-! # Scanners byte by byte

The same graphs of nodes without pieces and positions: a configuration looks at the next byte, if
there is one, and takes it or moves on without it. What it reports of an open span are single bytes.
`Steps c x es d y` says that these moves lead from `c` in front of the input `x` to `d` in front of
the rest `y`, with the events `es`.

* `Steps.append`: more input behind `x` changes nothing.
* `Steps.total`: moves that take nothing come to an end.
* `Reads.append`, `reads_append_iff`: reading an input in two pieces is reading it at once.
-/

namespace Rslinker.Scan

variable {N D K R : Type*}

inductive Event (K R : Type*)
  | byte (k : K) (b : UInt8)
  | report (r : R)
  deriving DecidableEq

structure Config (N D K : Type*) where
  label : N
  index : Nat
  span : Option K
  data : D

inductive Move (N D K R : Type*)
  /-- goes on in front of the same byte -/
  | quiet (c : Config N D K) (es : List (Event K R))
  /-- takes the byte -/
  | eat (c : Config N D K) (es : List (Event K R))
  /-- waits for a byte -/
  | block
  | stop (errno : Nat) (reason : String) (resume : Option N)

def eaten (span : Option K) (b : UInt8) : List (Event K R) := (span.map fun k => .byte k b).toList

namespace Machine

/-- What the node does in front of a byte, or at the end of the input. -/
def move (m : Machine N D K R) (c : Config N D K) (next : Option UInt8) : Move N D K R :=
  match m.node c.label, next with
  | .switch _ _ _, none => .block
  | .switch fold cases otherwise, some b =>
      let e := choose cases otherwise (fold b)
      if e.advance then .eat { c with label := e.target } (eaten c.span b)
      else .quiet { c with label := e.target } []
  | .sequence _ _ _ _, none => .block
  | .sequence fold word hit miss, some b =>
      if word[c.index]? = some (fold b) then
        if c.index + 1 = word.length then .eat { c with label := hit, index := 0 } (eaten c.span b)
        else .eat { c with index := c.index + 1 } (eaten c.span b)
      else .quiet { c with label := miss, index := 0 } []
  | .consume target, next =>
      if m.need c.data = 0 then .quiet { c with label := target } []
      else match next with
        | none => .block
        | some b =>
            .eat { c with
              label := if m.need c.data = 1 then target else c.label
              data := m.spend c.data 1 } (eaten c.span b)
  | .spanStart _ _, none => .block
  | .spanStart k target, some _ => .quiet { c with label := target, span := some k } []
  | .spanEnd _ true _, none => .block
  | .spanEnd _ true target, some _ => .eat { c with label := target, span := none } []
  | .spanEnd _ false target, _ => .quiet { c with label := target, span := none } []
  | .invoke f cases otherwise, _ =>
      .quiet { c with label := lookup cases otherwise (f c.data).2, data := (f c.data).1 } []
  | .report r target, _ => .quiet { c with label := target } [.report r]
  | .error errno reason resume, _ => .stop errno reason resume

/-- A move that does not wait at the end of the input is the same in front of any byte. -/
theorem move_of_none {m : Machine N D K R} {c : Config N D K} (h : m.move c none ≠ .block)
    (next : Option UInt8) : m.move c next = m.move c none := by
  unfold move at h ⊢
  cases hnode : m.node c.label with
  | switch | sequence | spanStart => simp [hnode] at h
  | consume target =>
      simp only [hnode] at h ⊢
      split
      · rfl
      · case isFalse hneed => simp [hneed] at h
  | spanEnd k advance target =>
      cases advance with
      | true => simp [hnode] at h
      | false => simp
  | invoke | report | error => simp

/-- Nothing is taken at the end of the input. -/
theorem move_none_ne_eat {m : Machine N D K R} {c d : Config N D K} {es : List (Event K R)} :
    m.move c none ≠ .eat d es := by
  unfold move
  cases hnode : m.node c.label with
  | consume target =>
      simp only
      split <;> simp
  | spanEnd k advance target => cases advance <;> simp
  | switch | sequence | spanStart | invoke | report | error => simp

end Machine

/-! ## Steps

The input is an argument and not a part of the configuration, because what a scanner has read does
not depend on what follows (`Steps.append`): steps over `x` are steps over `x ++ y` that leave `y`.
Moves are determined by the configuration and the next byte, so of two runs over one input one is
the beginning of the other (`Steps.compare`), and two that cannot move on are the same
(`Steps.unique`). -/

inductive Steps (m : Machine N D K R) :
    Config N D K → Bytes → List (Event K R) → Config N D K → Bytes → Prop
  | refl (c : Config N D K) (x : Bytes) : Steps m c x [] c x
  | quiet {c d e : Config N D K} {x y : Bytes} {es fs : List (Event K R)}
      (hmove : m.move c x.head? = .quiet d es) (h : Steps m d x fs e y) : Steps m c x (es ++ fs) e y
  | eat {c d e : Config N D K} {b : UInt8} {x y : Bytes} {es fs : List (Event K R)}
      (hmove : m.move c (some b) = .eat d es) (h : Steps m d x fs e y) :
      Steps m c (b :: x) (es ++ fs) e y

namespace Steps

variable {m : Machine N D K R} {c d e : Config N D K} {x y z : Bytes} {es fs : List (Event K R)}

theorem trans (h : Steps m c x es d y) (h' : Steps m d y fs e z) :
    Steps m c x (es ++ fs) e z := by
  induction h with
  | refl => exact h'
  | quiet hmove _ ih =>
      rw [List.append_assoc]
      exact .quiet hmove (ih h')
  | eat hmove _ ih =>
      rw [List.append_assoc]
      exact .eat hmove (ih h')

/-- Steps without events are added. -/
theorem silent (h : Steps m c x es d y) (h' : Steps m d y [] e z) : Steps m c x es e z := by
  simpa using h.trans h'

theorem of_quiet (hmove : m.move c x.head? = .quiet d es) : Steps m c x es d x := by
  simpa using quiet hmove (refl d x)

theorem of_eat {b : UInt8} (hmove : m.move c (some b) = .eat d es) : Steps m c (b :: x) es d x := by
  simpa using eat hmove (refl d x)

/-- **More input does not change what has been read.** -/
theorem append (h : Steps m c x es d y) (z : Bytes) : Steps m c (x ++ z) es d (y ++ z) := by
  induction h with
  | refl c x => exact refl c (x ++ z)
  | @quiet c d e x y es fs hmove _ ih =>
      refine quiet ?_ ih
      cases x with
      | cons b x => exact hmove
      | nil =>
          have hnone : m.move c none = .quiet d es := hmove
          rw [Machine.move_of_none (by simp [hnone]), hnone]
  | eat hmove _ ih => exact eat hmove ih

/-- The rest is a piece of the input. -/
theorem suffix (h : Steps m c x es d y) : ∃ u, x = u ++ y := by
  induction h with
  | refl c x => exact ⟨[], rfl⟩
  | quiet _ _ ih => exact ih
  | @eat c d e b x y es fs _ _ ih =>
      obtain ⟨u, rfl⟩ := ih
      exact ⟨b :: u, rfl⟩

def Ends (m : Machine N D K R) (c : Config N D K) (next : Option UInt8) : Prop :=
  (∀ d es, m.move c next ≠ .quiet d es) ∧ ∀ d es, m.move c next ≠ .eat d es

/-- The moves are determined: those that come to an end go on from wherever they have got. -/
theorem determined (h : Steps m c x es d y) (hend : Ends m d y.head?) (h' : Steps m c x fs e z) :
    ∃ gs, es = fs ++ gs ∧ Steps m e z gs d y := by
  induction h' generalizing es with
  | refl c x => exact ⟨es, rfl, h⟩
  | @quiet c c' e x z es' fs hmove _ ih =>
      cases h with
      | refl => exact absurd hmove (hend.1 _ _)
      | @quiet _ d' _ _ _ es'' fs' hmove' h'' =>
          rw [hmove] at hmove'
          obtain ⟨rfl, rfl⟩ := Move.quiet.inj hmove'
          obtain ⟨gs, rfl, hgs⟩ := ih h''
          exact ⟨gs, by simp, hgs⟩
      | eat hmove' => exact absurd (hmove.symm.trans hmove') (by simp)
  | @eat c c' e b x z es' fs hmove _ ih =>
      cases h with
      | refl => exact absurd hmove (hend.2 _ _)
      | quiet hmove' => exact absurd (hmove.symm.trans hmove') (by simp)
      | eat hmove' h'' =>
          rw [hmove] at hmove'
          obtain ⟨rfl, rfl⟩ := Move.eat.inj hmove'
          obtain ⟨gs, rfl, hgs⟩ := ih h''
          exact ⟨gs, by simp, hgs⟩

theorem length_le (h : Steps m c x es d y) : y.length ≤ x.length := by
  obtain ⟨u, rfl⟩ := h.suffix
  simp

/-- Where more of the input is left than elsewhere, the moves have not got as far. -/
theorem compare (h : Steps m c x es d y) (h' : Steps m c x fs e z) (hlt : z.length < y.length) :
    ∃ gs, fs = es ++ gs ∧ Steps m d y gs e z := by
  induction h generalizing fs with
  | refl c x => exact ⟨fs, rfl, h'⟩
  | @quiet c c' d x y es' es hmove hrest ih =>
      cases h' with
      | refl => exact absurd hrest.length_le (Nat.not_le.mpr hlt)
      | quiet hmove' h'' =>
          rw [hmove] at hmove'
          obtain ⟨rfl, rfl⟩ := Move.quiet.inj hmove'
          obtain ⟨gs, rfl, hgs⟩ := ih h'' hlt
          exact ⟨gs, by simp, hgs⟩
      | eat hmove' => exact absurd (hmove.symm.trans hmove') (by simp)
  | @eat c c' d b x y es' es hmove hrest ih =>
      cases h' with
      | refl =>
          have hle := hrest.length_le
          rw [List.length_cons] at hlt
          omega
      | quiet hmove' => exact absurd (hmove.symm.trans hmove') (by simp)
      | eat hmove' h'' =>
          rw [hmove] at hmove'
          obtain ⟨rfl, rfl⟩ := Move.eat.inj hmove'
          obtain ⟨gs, rfl, hgs⟩ := ih h'' hlt
          exact ⟨gs, by simp, hgs⟩

/-- A configuration that cannot move has only the empty steps. -/
theorem eq_of_ends (h : Steps m c x es d y) (hend : Ends m c x.head?) :
    es = [] ∧ d = c ∧ y = x := by
  cases h with
  | refl => exact ⟨rfl, rfl, rfl⟩
  | quiet hmove => exact absurd hmove (hend.1 _ _)
  | eat hmove => exact absurd hmove (hend.2 _ _)

/-- Two ends of the same input are one. -/
theorem unique (h : Steps m c x es d y) (hend : Ends m d y.head?) (h' : Steps m c x fs e z)
    (hend' : Ends m e z.head?) : fs = es ∧ e = d ∧ z = y := by
  obtain ⟨gs, rfl, hgs⟩ := determined h hend h'
  obtain ⟨rfl, rfl, rfl⟩ := hgs.eq_of_ends hend'
  simp

end Steps

/-! ## Moves that take nothing

A cycle of nodes that take nothing would never end. `settles` looks at where a node may lead
without taking a byte, whatever the data and the next byte are. So it is a statement about the
graph alone, which is checked by computation for every node, and no invariant of the data is
needed. -/

/-- Where a node may lead without taking a byte. -/
def Node.quietTargets : Node N D K R → List N
  | .switch _ cases otherwise =>
      ((otherwise :: cases.map Prod.snd).filter fun e => !e.advance).map Edge.target
  | .sequence _ _ _ miss => [miss]
  | .consume target => [target]
  | .spanStart _ target => [target]
  | .spanEnd _ advance target => if advance then [] else [target]
  | .invoke _ cases otherwise => otherwise :: cases.map Prod.snd
  | .report _ target => [target]
  | .error _ _ _ => []

theorem choose_mem (cases : List (ByteSet × Edge N)) (otherwise : Edge N) (b : UInt8) :
    choose cases otherwise b ∈ otherwise :: cases.map Prod.snd := by
  unfold choose
  cases hfind : cases.find? fun c => c.1.has b with
  | none => simp
  | some c =>
      have hmem := List.mem_of_find?_eq_some hfind
      simpa using Or.inr ⟨c.1, hmem⟩

theorem lookup_mem (cases : List (Nat × N)) (otherwise : N) (code : Nat) :
    lookup cases otherwise code ∈ otherwise :: cases.map Prod.snd := by
  unfold lookup
  cases hfind : cases.find? fun c => c.1 = code with
  | none => simp
  | some c =>
      have hmem := List.mem_of_find?_eq_some hfind
      simpa using Or.inr ⟨c.1, hmem⟩

namespace Machine

/-- From this node on at most `k` moves take nothing. -/
def settles (m : Machine N D K R) : Nat → N → Bool
  | 0, _ => false
  | k + 1, l => (m.node l).quietTargets.all (settles m k)

theorem quiet_target {m : Machine N D K R} {c d : Config N D K} {next : Option UInt8}
    {es : List (Event K R)} (h : m.move c next = .quiet d es) :
    d.label ∈ (m.node c.label).quietTargets := by
  unfold move at h
  cases hnode : m.node c.label with
  | switch fold cases otherwise =>
      cases next with
      | none => simp [hnode] at h
      | some b =>
          simp only [hnode] at h
          split at h
          · cases h
          · case isFalse hstay =>
              obtain ⟨rfl, -⟩ := Move.quiet.inj h
              have hmem := choose_mem cases otherwise (fold b)
              simp only [Node.quietTargets, List.mem_map, List.mem_filter]
              exact ⟨_, ⟨hmem, by simpa using hstay⟩, rfl⟩
  | sequence fold word hit miss =>
      cases next with
      | none => simp [hnode] at h
      | some b =>
          simp only [hnode] at h
          split at h
          · split at h <;> cases h
          · obtain ⟨rfl, -⟩ := Move.quiet.inj h
            simp [Node.quietTargets]
  | consume target =>
      simp only [hnode] at h
      split at h
      · obtain ⟨rfl, -⟩ := Move.quiet.inj h
        simp [Node.quietTargets]
      · split at h <;> cases h
  | spanStart k target =>
      cases next with
      | none => simp [hnode] at h
      | some b =>
          simp only [hnode] at h
          obtain ⟨rfl, -⟩ := Move.quiet.inj h
          simp [Node.quietTargets]
  | spanEnd k advance target =>
      cases advance with
      | true => cases next <;> simp [hnode] at h
      | false =>
          simp only [hnode] at h
          obtain ⟨rfl, -⟩ := Move.quiet.inj h
          simp [Node.quietTargets]
  | invoke f cases otherwise =>
      simp only [hnode] at h
      obtain ⟨rfl, -⟩ := Move.quiet.inj h
      exact lookup_mem cases otherwise _
  | report r target =>
      simp only [hnode] at h
      obtain ⟨rfl, -⟩ := Move.quiet.inj h
      simp [Node.quietTargets]
  | error errno reason resume => simp [hnode] at h

/-- Only the end of the input makes a node wait. -/
theorem move_some_ne_block {m : Machine N D K R} {c : Config N D K} {b : UInt8} :
    m.move c (some b) ≠ .block := by
  unfold move
  cases hnode : m.node c.label with
  | switch | sequence | consume =>
      simp only
      repeat' split
      all_goals simp
  | spanEnd k advance target => cases advance <;> simp
  | spanStart | invoke | report | error => simp

/-- Every node of the machine settles. -/
def Settles (m : Machine N D K R) (bound : Nat) : Prop := ∀ l, m.settles bound l

/-- **Moves come to an end**, at the end of the input or with an error. -/
theorem Settles.total {m : Machine N D K R} {bound : Nat} (hm : m.Settles bound)
    (c : Config N D K) (x : Bytes) :
    ∃ es d y, Steps m c x es d y ∧ Steps.Ends m d y.head? := by
  induction x generalizing c with
  | nil =>
      -- the induction is on the number of moves that are left
      have key : ∀ (k : Nat) (c : Config N D K), m.settles k c.label →
          ∃ es d y, Steps m c [] es d y ∧ Steps.Ends m d y.head? := by
        intro k
        induction k with
        | zero =>
            intro c hc
            cases hc
        | succ k ih =>
            intro c hc
            cases hmove : m.move c none with
            | quiet d es =>
                have hd := List.all_eq_true.mp hc _ (quiet_target hmove)
                obtain ⟨fs, e, y, hsteps, hend⟩ := ih d hd
                exact ⟨es ++ fs, e, y, .quiet hmove hsteps, hend⟩
            | eat d es => exact absurd hmove move_none_ne_eat
            | block | stop => exact ⟨[], c, [], .refl c [], by simp [Steps.Ends, hmove]⟩
      exact key bound c (hm c.label)
  | cons b x ihx =>
      have key : ∀ (k : Nat) (c : Config N D K), m.settles k c.label →
          ∃ es d y, Steps m c (b :: x) es d y ∧ Steps.Ends m d y.head? := by
        intro k
        induction k with
        | zero =>
            intro c hc
            cases hc
        | succ k ih =>
            intro c hc
            cases hmove : m.move c (some b) with
            | quiet d es =>
                have hd := List.all_eq_true.mp hc _ (quiet_target hmove)
                obtain ⟨fs, e, y, hsteps, hend⟩ := ih d hd
                exact ⟨es ++ fs, e, y, .quiet hmove hsteps, hend⟩
            | eat d es =>
                obtain ⟨fs, e, y, hsteps, hend⟩ := ihx d
                exact ⟨es ++ fs, e, y, .eat hmove hsteps, hend⟩
            | block => exact absurd hmove move_some_ne_block
            | stop => exact ⟨[], c, b :: x, .refl c _, by simp [Steps.Ends, hmove]⟩
      exact key bound c (hm c.label)

end Machine

/-! ## What comes before the next byte

Between two bytes a machine passes only nodes that take nothing, and from any node these are finitely
many. So what may happen before the next byte is checked node by node (`confined`): which reports come
(`report_of_confined`), and whether a span is opened in time for the next byte to belong to it. If it
is not, the bytes of this span are fewer than the bytes taken (`bytes_of_confined`). -/

/-- The event is a byte of a span of this kind. -/
def Event.isByte [DecidableEq K] (k : K) : Event K R → Bool
  | .byte k' _ => k' = k
  | .report _ => false

namespace Machine

variable {m : Machine N D K R} {c d : Config N D K} {next : Option UInt8} {es : List (Event K R)}

/-- All nodes that may be passed from this one on satisfy `P`; they are at most `k` moves away. -/
def confined (m : Machine N D K R) (P : Node N D K R → Bool) : Nat → N → Bool
  | 0, _ => false
  | k + 1, l => P (m.node l) && (m.node l).quietTargets.all (confined m P k)

/-- A move that takes nothing has the event of a report or none. -/
theorem quiet_events (h : m.move c next = .quiet d es) :
    es = [] ∨ ∃ r t, m.node c.label = .report r t ∧ es = [.report r] := by
  unfold move at h
  cases hnode : m.node c.label with
  | report r target =>
      simp only [hnode] at h
      exact Or.inr ⟨r, target, rfl, (Move.quiet.inj h).2.symm⟩
  | switch | sequence | consume | spanStart =>
      cases next
      all_goals
        simp only [hnode] at h
        repeat' split at h
        all_goals first
          | exact Or.inl (Move.quiet.inj h).2.symm
          | cases h
  | spanEnd k advance target =>
      cases advance
      · simp only [hnode] at h
        exact Or.inl (Move.quiet.inj h).2.symm
      · cases next <;> simp [hnode] at h
  | invoke f cases otherwise =>
      simp only [hnode] at h
      exact Or.inl (Move.quiet.inj h).2.symm
  | error errno reason resume => simp [hnode] at h

/-- It keeps the span that is open, closes it, or opens one. -/
theorem quiet_span (h : m.move c next = .quiet d es) :
    d.span = c.span ∨ d.span = none ∨ ∃ k t, m.node c.label = .spanStart k t ∧ d.span = some k := by
  unfold move at h
  cases hnode : m.node c.label with
  | spanStart k target =>
      cases next with
      | none => simp [hnode] at h
      | some b =>
          simp only [hnode] at h
          obtain ⟨rfl, -⟩ := Move.quiet.inj h
          exact Or.inr (Or.inr ⟨k, target, rfl, rfl⟩)
  | switch | sequence | consume =>
      cases next
      all_goals
        simp only [hnode] at h
        repeat' split at h
        all_goals first
          | obtain ⟨rfl, -⟩ := Move.quiet.inj h
            exact Or.inl rfl
          | cases h
  | spanEnd k advance target =>
      cases advance
      · simp only [hnode] at h
        obtain ⟨rfl, -⟩ := Move.quiet.inj h
        exact Or.inr (Or.inl rfl)
      · cases next <;> simp [hnode] at h
  | invoke | report =>
      simp only [hnode] at h
      obtain ⟨rfl, -⟩ := Move.quiet.inj h
      exact Or.inl rfl
  | error errno reason resume => simp [hnode] at h

/-- The byte that a move takes belongs to the open span. -/
theorem eat_events {b : UInt8} (h : m.move c (some b) = .eat d es) :
    es = [] ∨ es = eaten c.span b := by
  unfold move at h
  cases hnode : m.node c.label with
  | spanEnd k advance target =>
      cases advance
      · simp [hnode] at h
      · simp only [hnode] at h
        exact Or.inl (Move.eat.inj h).2.symm
  | switch | sequence | consume | spanStart | invoke | report | error =>
      simp only [hnode] at h
      repeat' split at h
      all_goals first
        | exact Or.inr (Move.eat.inj h).2.symm
        | cases h

end Machine

namespace Steps

variable {m : Machine N D K R} {c d : Config N D K} {x y : Bytes} {es : List (Event K R)}
  {P : Node N D K R → Bool} {n : Nat}

/-- At the end of the input there are only reports. -/
theorem report_of_confined (hP : m.confined P n c.label) (h : Steps m c x es d y) (hx : x = []) :
    ∀ e ∈ es, ∃ r t, e = .report r ∧ P (.report r t) := by
  induction h generalizing n with
  | refl c x => simp
  | @quiet c c' d x y es fs hmove _ ih =>
      cases n with
      | zero => cases hP
      | succ n =>
          obtain ⟨hnode, htargets⟩ := Bool.and_eq_true_iff.mp hP
          have hrest := ih (List.all_eq_true.mp htargets _ (Machine.quiet_target hmove)) hx
          intro e he
          rcases List.mem_append.mp he with he | he
          · rcases Machine.quiet_events hmove with rfl | ⟨r, t, heq, rfl⟩
            · cases he
            · rw [heq] at hnode
              exact ⟨r, t, List.mem_singleton.mp he, hnode⟩
          · exact hrest e he
  | eat => cases hx

variable [DecidableEq K] {k : K}

theorem countP_quiet {next : Option UInt8} (h : m.move c next = .quiet d es) :
    es.countP (Event.isByte k) = 0 := by
  rcases Machine.quiet_events h with rfl | ⟨r, t, -, rfl⟩ <;> rfl

/-- A span has at most the bytes that are taken. -/
theorem countP_le (h : Steps m c x es d y) :
    es.countP (Event.isByte k) + y.length ≤ x.length := by
  induction h with
  | refl c x => simp
  | quiet hmove _ ih =>
      rw [List.countP_append, countP_quiet hmove]
      omega
  | @eat c c' d b x y es fs hmove _ ih =>
      have hone : es.countP (Event.isByte k) ≤ 1 := by
        refine Nat.le_trans List.countP_le_length ?_
        rcases Machine.eat_events hmove with rfl | rfl
        · exact Nat.zero_le 1
        · cases hspan : c.span <;> simp [eaten]
      rw [List.countP_append, List.length_cons]
      omega

/-- When the next byte does not belong to the span, there are fewer. -/
theorem bytes_of_confined (hk : ∀ t, P (.spanStart k t) = false) (hP : m.confined P n c.label)
    (hspan : c.span ≠ some k) (h : Steps m c x es d y) (hlt : y.length < x.length) :
    es.countP (Event.isByte k) + y.length < x.length := by
  induction h generalizing n with
  | refl c x => exact absurd hlt (Nat.lt_irrefl _)
  | @quiet c c' d x y es fs hmove _ ih =>
      cases n with
      | zero => cases hP
      | succ n =>
          obtain ⟨hnode, htargets⟩ := Bool.and_eq_true_iff.mp hP
          have hspan' : c'.span ≠ some k := by
            rcases Machine.quiet_span hmove with heq | heq | ⟨k', t, heq, hopen⟩
            · rwa [heq]
            · simp [heq]
            · rw [hopen]
              rintro ⟨⟩
              rw [heq, hk] at hnode
              cases hnode
          have hrest := ih (List.all_eq_true.mp htargets _ (Machine.quiet_target hmove)) hspan' hlt
          rw [List.countP_append, countP_quiet hmove]
          omega
  | @eat c c' d b x y es fs hmove hsteps ih =>
      -- this byte counts for nothing, and every later one at most for one
      have hnone : es.countP (Event.isByte k) = 0 := by
        rcases Machine.eat_events hmove with rfl | rfl
        · rfl
        · cases hopen : c.span with
          | none => rfl
          | some k' =>
              have hne : k' ≠ k := by
                rintro rfl
                exact hspan hopen
              simp [eaten, Event.isByte, hne]
      have hle := countP_le (k := k) hsteps
      rw [List.countP_append, hnone, List.length_cons]
      omega

end Steps

/-! ## Reading a whole input

There are two ends: the configuration waits for more input (`Reads`), or it is at an error with the
rest of the input still in front of it (`Fails`). Every input comes to exactly one of them, since
moves settle, and both are compatible with a division of the input into two. -/

/-- All of `x` is read, and then the configuration waits. -/
structure Reads (m : Machine N D K R) (c : Config N D K) (x : Bytes) (es : List (Event K R))
    (d : Config N D K) : Prop where
  steps : Steps m c x es d []
  waits : m.move d none = .block

/-- In front of the rest `y` of the input there is an error. -/
structure Fails (m : Machine N D K R) (c : Config N D K) (x : Bytes) (es : List (Event K R))
    (d : Config N D K) (y : Bytes) (errno : Nat) (reason : String) (resume : Option N) : Prop where
  steps : Steps m c x es d y
  stops : m.move d y.head? = .stop errno reason resume

variable {m : Machine N D K R} {c d e : Config N D K} {x y : Bytes} {es fs gs : List (Event K R)}
  {errno : Nat} {reason : String} {resume : Option N}

theorem Reads.ends (h : Reads m c x es d) : Steps.Ends m d (([] : Bytes).head?) := by
  simp [Steps.Ends, h.waits]

theorem Fails.ends (h : Fails m c x es d y errno reason resume) : Steps.Ends m d y.head? := by
  simp [Steps.Ends, h.stops]

theorem Reads.unique (h : Reads m c x es d) (h' : Reads m c x fs e) : fs = es ∧ e = d := by
  obtain ⟨hes, hd, -⟩ := h.steps.unique h.ends h'.steps h'.ends
  exact ⟨hes, hd⟩

theorem Reads.not_fails (h : Reads m c x es d) : ¬ Fails m c x fs e y errno reason resume := by
  intro h'
  obtain ⟨-, rfl, rfl⟩ := h.steps.unique h.ends h'.steps h'.ends
  have hstops := h'.stops
  rw [List.head?_nil, h.waits] at hstops
  cases hstops

theorem Fails.unique {z : Bytes} {errno' : Nat} {reason' : String} {resume' : Option N}
    (h : Fails m c x es d y errno reason resume) (h' : Fails m c x fs e z errno' reason' resume') :
    fs = es ∧ e = d ∧ z = y ∧ errno' = errno ∧ reason' = reason ∧ resume' = resume := by
  obtain ⟨hes, rfl, rfl⟩ := h.steps.unique h.ends h'.steps h'.ends
  have hstops := h'.stops
  rw [h.stops] at hstops
  obtain ⟨rfl, rfl, rfl⟩ := Move.stop.inj hstops
  exact ⟨hes, rfl, rfl, rfl, rfl, rfl⟩

/-- An input is read, or it fails. -/
theorem Machine.Settles.reads_or_fails {bound : Nat} (hm : m.Settles bound) (c : Config N D K)
    (x : Bytes) :
    (∃ es d, Reads m c x es d) ∨
      ∃ es d y errno reason resume, Fails m c x es d y errno reason resume := by
  obtain ⟨es, d, y, hsteps, hend⟩ := hm.total c x
  cases hmove : m.move d y.head? with
  | quiet => exact absurd hmove (hend.1 _ _)
  | eat => exact absurd hmove (hend.2 _ _)
  | block =>
      cases y with
      | nil => exact .inl ⟨es, d, hsteps, hmove⟩
      | cons => exact absurd hmove Machine.move_some_ne_block
  | stop errno reason resume => exact .inr ⟨es, d, y, errno, reason, resume, hsteps, hmove⟩

/-- What is read of an input is the beginning of what is read of a longer one. -/
theorem Steps.reads (h : Steps m c x es d []) (h' : Reads m d y fs e) :
    Reads m c (x ++ y) (es ++ fs) e :=
  ⟨(h.append y).trans h'.steps, h'.waits⟩

theorem Steps.fails {z : Bytes} (h : Steps m c x es d [])
    (h' : Fails m d y fs e z errno reason resume) :
    Fails m c (x ++ y) (es ++ fs) e z errno reason resume :=
  ⟨(h.append y).trans h'.steps, h'.stops⟩

/-- An error is not put off by more input. -/
theorem Fails.append (h : Fails m c x es d y errno reason resume) (z : Bytes) :
    Fails m c (x ++ z) es d (y ++ z) errno reason resume := by
  refine ⟨h.steps.append z, ?_⟩
  have hstops := h.stops
  cases y with
  | cons b y => exact hstops
  | nil =>
      rw [List.head?_nil] at hstops
      rw [Machine.move_of_none (by simp [hstops]), hstops]

/-- **An input may be read in two pieces.** -/
theorem Machine.Settles.reads_append_iff {bound : Nat} (hm : m.Settles bound) :
    Reads m c (x ++ y) gs e ↔
      ∃ es d fs, gs = es ++ fs ∧ Reads m c x es d ∧ Reads m d y fs e := by
  constructor
  · intro h
    rcases hm.reads_or_fails c x with ⟨es, d, hx⟩ | ⟨es, d, z, errno, reason, resume, hx⟩
    · obtain ⟨fs, rfl, hfs⟩ := h.steps.determined h.ends (hx.steps.append y)
      exact ⟨es, d, fs, rfl, hx, hfs, h.waits⟩
    · exact absurd (hx.append y) h.not_fails
  · rintro ⟨es, d, fs, rfl, hx, hy⟩
    exact hx.steps.reads hy

/-- **The first error of an input** is in its first piece or, when that is read, in the second. -/
theorem Machine.Settles.fails_append_iff {z : Bytes} {bound : Nat} (hm : m.Settles bound) :
    Fails m c (x ++ y) gs e z errno reason resume ↔
      (∃ w, z = w ++ y ∧ Fails m c x gs e w errno reason resume) ∨
        ∃ es d fs, gs = es ++ fs ∧ Reads m c x es d ∧ Fails m d y fs e z errno reason resume := by
  constructor
  · intro h
    rcases hm.reads_or_fails c x with ⟨es, d, hx⟩ | ⟨es, d, w, errno', reason', resume', hx⟩
    · obtain ⟨fs, rfl, hfs⟩ := h.steps.determined h.ends (hx.steps.append y)
      exact .inr ⟨es, d, fs, rfl, hx, hfs, h.stops⟩
    · obtain ⟨rfl, rfl, rfl, rfl, rfl, rfl⟩ := (hx.append y).unique h
      exact .inl ⟨w, rfl, hx⟩
  · rintro (⟨w, rfl, h⟩ | ⟨es, d, fs, rfl, hx, hy⟩)
    · exact h.append y
    · exact hx.steps.fails hy

end Rslinker.Scan
