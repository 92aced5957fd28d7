import Rslinker.Basic.ScannerBytes
import Mathlib.Data.List.TakeWhile

set_option autoImplicit false

/-! # Reading words

How a scanner reads inputs of which something is known. `follow` takes as many moves as it is told
to, and so computes what is read of a given input in front of any other. `skip` and `glide` follow
the edges of one byte, up to where it is taken and with its taking. A comparison with a word hits or
misses (`steps_sequence`).

The lemmas are meant for graphs that are given in full, where the function of a node is known by
reduction. Each of them reduces a statement about all inputs with some property to computations on
single bytes.
-/

namespace Rslinker.Scan

variable {N D K R : Type*}

namespace Machine

/-- Takes `n` moves, or as many as there are: the events, the configuration and what is left. -/
def follow (m : Machine N D K R) :
    Nat → Config N D K → Bytes → List (Event K R) × Config N D K × Bytes
  | 0, c, x => ([], c, x)
  | n + 1, c, x =>
      match m.move c x.head?, x with
      | .quiet d es, x => (es ++ (follow m n d x).1, (follow m n d x).2)
      | .eat d es, _ :: x => (es ++ (follow m n d x).1, (follow m n d x).2)
      | _, x => ([], c, x)

theorem follow_steps (m : Machine N D K R) (n : Nat) (c : Config N D K) (x : Bytes) :
    Steps m c x (m.follow n c x).1 (m.follow n c x).2.1 (m.follow n c x).2.2 := by
  induction n generalizing c x with
  | zero => exact .refl c x
  | succ n ih =>
      cases hmove : m.move c x.head? with
      | quiet d es =>
          simp only [follow, hmove]
          exact .quiet hmove (ih d x)
      | eat d es =>
          cases x with
          | nil => exact absurd hmove move_none_ne_eat
          | cons b x =>
              simp only [follow, hmove]
              exact .eat hmove (ih d x)
      | block | stop =>
          simp only [follow, hmove]
          exact .refl c x

/-- What is read of an input is what `follow` computes. -/
theorem steps_of_follow {m : Machine N D K R} {c d : Config N D K} {x y : Bytes}
    {es : List (Event K R)} (n : Nat) (h : m.follow n c x = (es, d, y)) : Steps m c x es d y := by
  have hsteps := m.follow_steps n c x
  rwa [h] at hsteps

/-- A function is invoked. -/
theorem invoke_steps {m : Machine N D K R} {l : N} {f : D → D × Nat} {cases : List (Nat × N)}
    {otherwise : N} (hnode : m.node l = .invoke f cases otherwise) (span : Option K) (d : D)
    (x : Bytes) :
    Steps m ⟨l, 0, span, d⟩ x [] ⟨lookup cases otherwise (f d).2, 0, span, (f d).1⟩ x := by
  refine .of_quiet ?_
  simp [move, hnode]

/-- Where at most `n` edges of a byte lead that do not take it. -/
def skip (m : Machine N D K R) : Nat → N → UInt8 → N
  | 0, l, _ => l
  | n + 1, l, b =>
      match m.node l with
      | .switch fold cases otherwise =>
          let e := choose cases otherwise (fold b)
          if e.advance then l else skip m n e.target b
      | _ => l

theorem skip_steps {m : Machine N D K R} {n : Nat} {l t : N} {b : UInt8} (h : m.skip n l b = t)
    (span : Option K) (d : D) (y : Bytes) :
    Steps m ⟨l, 0, span, d⟩ (b :: y) [] ⟨t, 0, span, d⟩ (b :: y) := by
  subst h
  induction n generalizing l with
  | zero => exact .refl _ _
  | succ n ih =>
      rw [skip]
      split
      · case h_1 fold cases otherwise hnode =>
          dsimp only
          split
          · exact .refl _ _
          · case isFalse hstay =>
              have hmove : m.move ⟨l, 0, span, d⟩ (b :: y).head? =
                  .quiet ⟨(choose cases otherwise (fold b)).target, 0, span, d⟩ [] := by
                simp [move, hnode, hstay]
              exact .quiet hmove ih
      · exact .refl _ _

/-- Where a byte leads that is taken by an edge, after at most `n` edges. -/
def glide (m : Machine N D K R) : Nat → N → UInt8 → Option N
  | 0, _, _ => none
  | n + 1, l, b =>
      match m.node l with
      | .switch fold cases otherwise =>
          let e := choose cases otherwise (fold b)
          if e.advance then some e.target else glide m n e.target b
      | _ => none

theorem glide_steps {m : Machine N D K R} {n : Nat} {l t : N} {b : UInt8}
    (h : m.glide n l b = some t) (span : Option K) (d : D) (y : Bytes) :
    Steps m ⟨l, 0, span, d⟩ (b :: y) (eaten span b) ⟨t, 0, span, d⟩ y := by
  induction n generalizing l with
  | zero => cases h
  | succ n ih =>
      rw [glide] at h
      split at h
      · case h_1 fold cases otherwise hnode =>
          dsimp only at h
          split at h
          · case isTrue hadvance =>
              cases h
              exact .of_eat (by simp [move, hnode, hadvance])
          · case isFalse hstay =>
              have hmove : m.move ⟨l, 0, span, d⟩ (b :: y).head? =
                  .quiet ⟨(choose cases otherwise (fold b)).target, 0, span, d⟩ [] := by
                simp [move, hnode, hstay]
              exact .quiet hmove (ih h)
      · cases h

/-- The bytes of `u` lead from `l` to `l` again. -/
theorem loop_steps {m : Machine N D K R} {n : Nat} {l : N} {u : Bytes}
    (h : ∀ b ∈ u, m.glide n l b = some l) (span : Option K) (d : D) (y : Bytes) :
    Steps m ⟨l, 0, span, d⟩ (u ++ y) (eatenAll span u) ⟨l, 0, span, d⟩ y := by
  induction u with
  | nil => exact .refl _ y
  | cons b u ih =>
      have hb := glide_steps (h b List.mem_cons_self) span d (u ++ y)
      exact hb.trans (ih fun b' hb' => h b' (List.mem_cons_of_mem b hb'))

end Machine

/-- What is left of an input behind its first bytes with `p`. -/
theorem dropWhile_cases (p : UInt8 → Bool) (x : Bytes) :
    x.dropWhile p = [] ∨ ∃ b y, x.dropWhile p = b :: y ∧ p b = false := by
  rcases hx : x.dropWhile p with _ | ⟨b, y⟩
  · exact .inl rfl
  · refine .inr ⟨b, y, rfl, ?_⟩
    have hhead := List.head_dropWhile_not p (l := x) (by rw [hx]; exact List.cons_ne_nil b y)
    simpa [hx] using hhead

/-! ## Errors

`Rejects` forgets where the error is and what has been called back before it. What is left is the
number of the error, and it is enough to find an error at the end of any steps. -/

/-- There is this error somewhere in the input. -/
def Rejects (m : Machine N D K R) (c : Config N D K) (x : Bytes) (errno : Nat) : Prop :=
  ∃ es d y reason resume, Fails m c x es d y errno reason resume

theorem Steps.rejects {m : Machine N D K R} {c d : Config N D K} {x y : Bytes}
    {es : List (Event K R)} {errno : Nat} (h : Steps m c x es d y) (h' : Rejects m d y errno) :
    Rejects m c x errno := by
  obtain ⟨fs, e, z, reason, resume, hsteps, hstops⟩ := h'
  exact ⟨es ++ fs, e, z, reason, resume, h.trans hsteps, hstops⟩

theorem Rejects.of_stop {m : Machine N D K R} {c : Config N D K} {x : Bytes} {errno : Nat}
    {reason : String} {resume : Option N} (h : m.move c x.head? = .stop errno reason resume) :
    Rejects m c x errno :=
  ⟨[], c, x, reason, resume, .refl c x, h⟩

/-- The error that `n` moves lead to. -/
theorem Rejects.of_follow {m : Machine N D K R} {c d : Config N D K} {x y : Bytes}
    {es : List (Event K R)} {errno : Nat} {reason : String} {resume : Option N} (n : Nat)
    (h : m.follow n c x = (es, d, y)) (hstop : m.move d y.head? = .stop errno reason resume) :
    Rejects m c x errno :=
  (Machine.steps_of_follow n h).rejects (.of_stop hstop)

/-! ## Checks of all bytes

A statement about every byte at a node is decided by trying all of them. To try them on the node
itself is slow, since its cases are lists of ranges; the lemmas reduce it to one case of the node,
which is known, and to the bytes that the case has. -/

/-- The edge of a byte, when it is known which case is the first one that has it. -/
theorem choose_eq_getD (cases : List (ByteSet × Edge N)) (otherwise : Edge N) (b : UInt8) :
    choose cases otherwise b
      = ((cases.map Prod.snd)[cases.findIdx fun c => c.1.has b]?).getD otherwise := by
  rw [choose, List.getElem?_map]
  congr 2
  induction cases with
  | nil => rfl
  | cons c cases ih =>
      rw [List.find?_cons, List.findIdx_cons]
      cases c.1.has b with
      | true => rfl
      | false => simpa using ih

theorem ByteSet.has_singleton (c b : UInt8) : ByteSet.has [(c, c)] b = decide (c = b) := by
  simp only [ByteSet.has, List.any_cons, List.any_nil, Bool.or_false, ← Bool.decide_and]
  exact decide_eq_decide.mpr ⟨fun h => UInt8.le_antisymm h.1 h.2, fun h => by simp [h]⟩

/-- Every case is one byte. -/
theorem choose_bytes (edges : List (UInt8 × Edge N)) (otherwise : Edge N) (b : UInt8) :
    (∃ e, (b, e) ∈ edges ∧ choose (edges.map fun c => ([(c.1, c.1)], c.2)) otherwise b = e) ∨
      b ∉ edges.map Prod.fst ∧
        choose (edges.map fun c => ([(c.1, c.1)], c.2)) otherwise b = otherwise := by
  induction edges with
  | nil => exact .inr ⟨List.not_mem_nil, rfl⟩
  | cons c edges ih =>
      by_cases hc : c.1 = b
      · refine .inl ⟨c.2, hc ▸ List.mem_cons_self, ?_⟩
        simp [choose, ByteSet.has_singleton, hc]
      · have hrest : choose ((c :: edges).map fun c => ([(c.1, c.1)], c.2)) otherwise b
            = choose (edges.map fun c => ([(c.1, c.1)], c.2)) otherwise b := by
          simp [choose, ByteSet.has_singleton, hc]
        rw [hrest]
        rcases ih with ⟨e, hmem, he⟩ | ⟨hnot, he⟩
        · exact .inl ⟨e, List.mem_cons_of_mem c hmem, he⟩
        · refine .inr ⟨?_, he⟩
          rw [List.map_cons, List.mem_cons, not_or]
          exact ⟨Ne.symm hc, hnot⟩

namespace Machine

variable {m : Machine N D K R} {l t : N} {fold : UInt8 → UInt8} {cases : List (ByteSet × Edge N)}
  {otherwise : Edge N} {p : UInt8 → Bool}

theorem glide_of_choose (hnode : m.node l = .switch fold cases otherwise) {b : UInt8}
    (h : choose cases otherwise (fold b) = ⟨true, t⟩) : m.glide 1 l b = some t := by
  simp [glide, hnode, h]

theorem skip_of_choose (hnode : m.node l = .switch fold cases otherwise) {b : UInt8}
    (h : choose cases otherwise (fold b) = ⟨false, t⟩) : m.skip 1 l b = t := by
  simp [skip, hnode, h]

/-- All bytes with `p` are taken by the case `i` of the node. -/
theorem glide_all (hnode : m.node l = .switch fold cases otherwise) (i : Nat)
    (hedge : ((cases.map Prod.snd)[i]?).getD otherwise = ⟨true, t⟩)
    (h : allBytes fun b => !p b || decide ((cases.findIdx fun c => c.1.has (fold b)) = i)) :
    ∀ b, p b → m.glide 1 l b = some t := by
  intro b hb
  have hindex := of_allBytes h b
  simp only [hb, Bool.not_true, Bool.false_or, decide_eq_true_eq] at hindex
  rw [← hindex, ← choose_eq_getD] at hedge
  exact glide_of_choose hnode hedge

/-- All bytes with `p` are left to the target of the case `i` of the node. -/
theorem skip_all (hnode : m.node l = .switch fold cases otherwise) (i : Nat)
    (hedge : ((cases.map Prod.snd)[i]?).getD otherwise = ⟨false, t⟩)
    (h : allBytes fun b => !p b || decide ((cases.findIdx fun c => c.1.has (fold b)) = i)) :
    ∀ b, p b → m.skip 1 l b = t := by
  intro b hb
  have hindex := of_allBytes h b
  simp only [hb, Bool.not_true, Bool.false_or, decide_eq_true_eq] at hindex
  rw [← hindex, ← choose_eq_getD] at hedge
  exact skip_of_choose hnode hedge

/-- The error that at most `n` edges of a byte lead to. -/
def derail (m : Machine N D K R) : Nat → N → UInt8 → Option Nat
  | 0, _, _ => none
  | n + 1, l, b =>
      match m.node l with
      | .switch fold cases otherwise =>
          let e := choose cases otherwise (fold b)
          if e.advance then
            match m.node e.target with
            | .error errno _ _ => some errno
            | _ => none
          else derail m n e.target b
      | .error errno _ _ => some errno
      | _ => none

/-- At an error. -/
theorem error_rejects {errno : Nat} {reason : String} {resume : Option N}
    (hnode : m.node l = .error errno reason resume) (span : Option K) (d : D) (x : Bytes) :
    Rejects m ⟨l, 0, span, d⟩ x errno := by
  have hstop : m.move ⟨l, 0, span, d⟩ x.head? = .stop errno reason resume := by
    simp [move, hnode]
  exact .of_stop hstop

theorem derail_rejects {n errno : Nat} {b : UInt8} (h : m.derail n l b = some errno)
    (span : Option K) (d : D) (y : Bytes) : Rejects m ⟨l, 0, span, d⟩ (b :: y) errno := by
  induction n generalizing l with
  | zero => cases h
  | succ n ih =>
      rw [derail] at h
      split at h
      · case h_1 fold cases otherwise hnode =>
          dsimp only at h
          split at h
          · case isTrue hadvance =>
              split at h
              · case h_1 herror =>
                  cases h
                  have hmove : m.move ⟨l, 0, span, d⟩ (some b) =
                      .eat ⟨(choose cases otherwise (fold b)).target, 0, span, d⟩ (eaten span b) := by
                    simp [move, hnode, hadvance]
                  exact (Steps.of_eat hmove).rejects (error_rejects herror span d y)
              · cases h
          · case isFalse hstay =>
              have hmove : m.move ⟨l, 0, span, d⟩ (b :: y).head? =
                  .quiet ⟨(choose cases otherwise (fold b)).target, 0, span, d⟩ [] := by
                simp [move, hnode, hstay]
              exact (Steps.of_quiet hmove).rejects (ih h)
      · case h_2 herror =>
          cases h
          exact error_rejects herror span d (b :: y)
      · cases h

end Machine

/-! ## Comparisons

Whether a word is there is known at the first byte that differs from it, or at its last byte. The
input needs to have a byte that is not in the word, for otherwise the comparison may wait for more
of it. -/

section Sequences

variable {m : Machine N D K R} {c : Config N D K} {fold : UInt8 → UInt8} {word : Bytes}
  {hit miss : N}

/-- **A comparison hits or misses**, in front of a byte that is not in the word at the latest. -/
theorem steps_sequence (hnode : m.node c.label = .sequence fold word hit miss)
    (hindex : c.index < word.length) {x : Bytes} {b : UInt8} (hb : fold b ∉ word) (y : Bytes) :
    (∃ u v, x = u ++ v ∧ u.map fold = word.drop c.index ∧
        Steps m c (x ++ b :: y) (eatenAll c.span u) { c with label := hit, index := 0 }
          (v ++ b :: y)) ∨
      ¬ word.drop c.index <+: x.map fold ∧ ∃ u v, x = u ++ v ∧
        Steps m c (x ++ b :: y) (eatenAll c.span u) { c with label := miss, index := 0 }
          (v ++ b :: y) := by
  have hget : word[c.index]? = some word[c.index] := List.getElem?_eq_getElem hindex
  have hdrop : word.drop c.index = word[c.index] :: word.drop (c.index + 1) :=
    List.drop_eq_getElem_cons hindex
  induction x generalizing c with
  | nil =>
      right
      have hne : word[c.index]? ≠ some (fold b) := by
        intro heq
        exact hb (List.mem_of_getElem? heq)
      have hmove : m.move c (some b) = .quiet { c with label := miss, index := 0 } [] := by
        simp only [Machine.move, hnode, if_neg hne]
      refine ⟨?_, [], [], rfl, .of_quiet hmove⟩
      rw [hdrop, List.map_nil, List.prefix_nil]
      exact List.cons_ne_nil _ _
  | cons a x ih =>
      by_cases heq : fold a = word[c.index]
      · have hword : word[c.index]? = some (fold a) := by rw [hget, heq]
        by_cases hlast : c.index + 1 = word.length
        · left
          refine ⟨[a], x, rfl, ?_, ?_⟩
          · rw [hdrop, hlast, List.drop_length]
            simp [heq]
          · have hmove : m.move c (some a)
                = .eat { c with label := hit, index := 0 } (eaten c.span a) := by
              simp [Machine.move, hnode, hword, hlast]
            simpa using Steps.of_eat (x := x ++ b :: y) hmove
        · have hlt : c.index + 1 < word.length := Nat.lt_of_le_of_ne hindex hlast
          have hmove : m.move c (some a) = .eat { c with index := c.index + 1 } (eaten c.span a) := by
            simp [Machine.move, hnode, hword, hlast]
          rcases @ih { c with index := c.index + 1 } hnode hlt (List.getElem?_eq_getElem hlt)
              (List.drop_eq_getElem_cons hlt) with ⟨u, v, rfl, hu, hsteps⟩ | ⟨hmiss, u, v, rfl, hsteps⟩
          · left
            refine ⟨a :: u, v, rfl, ?_, .eat hmove hsteps⟩
            rw [List.map_cons, heq, hu, hdrop]
          · right
            refine ⟨?_, a :: u, v, rfl, .eat hmove hsteps⟩
            rw [hdrop, List.map_cons, heq, List.cons_prefix_cons]
            exact fun h => hmiss h.2
      · right
        have hne : word[c.index]? ≠ some (fold a) := by
          rw [hget]
          simpa using fun h => heq h.symm
        have hmove : m.move c (some a) = .quiet { c with label := miss, index := 0 } [] := by
          simp only [Machine.move, hnode, if_neg hne]
        refine ⟨?_, [], a :: x, rfl, .of_quiet hmove⟩
        rw [hdrop, List.map_cons, List.cons_prefix_cons]
        exact fun h => heq h.1.symm

end Sequences

end Rslinker.Scan
