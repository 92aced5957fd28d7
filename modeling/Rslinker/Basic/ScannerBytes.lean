import Rslinker.Basic.ScannerGrammar

set_option autoImplicit false

/-! # The bytes of spans

What is known of bytes at a node: of the next one, of the last one that has been taken, and of those
of the open span. When these facts agree with what the nodes do (`Node.agrees`, which is checked by
computation), they hold in every run. So the bytes of a span are in a set that goes with its kind,
and the span is cut next to bytes that are known, or at an end of the piece (`call_known`).

This is a forward analysis of the graph with sets of bytes as its values. Nothing is computed by
iteration: the sets are given, and it is checked that they are closed under the nodes.
-/

namespace Rslinker.Scan

variable {N D K R : Type*}

/-! ## Sets of bytes

A set of bytes is a list of ranges, and `sub` compares ranges, not their unions: it is enough for
`⊆` and cheap to compute. Where it is too weak, the 256 bytes are tried one by one (`allBytes`). -/

namespace ByteSet

def full : ByteSet := [(0, 255)]

/-- Every range of `s` is in one of `t`. -/
def sub (s t : ByteSet) : Bool := s.all fun r => t.any fun q => q.1 ≤ r.1 && r.2 ≤ q.2

@[simp] theorem full_has (b : UInt8) : full.has b := by
  have hle : b ≤ 255 := UInt8.le_iff_toNat_le.mpr (Nat.le_of_lt_succ b.toNat_lt)
  simp [full, has, hle]

theorem has_of_sub {s t : ByteSet} (h : s.sub t) {b : UInt8} (hb : s.has b) : t.has b := by
  obtain ⟨r, hr, hin⟩ := List.any_eq_true.mp hb
  obtain ⟨q, hq, hout⟩ := List.any_eq_true.mp (List.all_eq_true.mp h r hr)
  simp only [Bool.and_eq_true, decide_eq_true_eq] at hin hout
  refine List.any_eq_true.mpr ⟨q, hq, ?_⟩
  simp only [Bool.and_eq_true, decide_eq_true_eq]
  exact ⟨UInt8.le_trans hout.1 hin.1, UInt8.le_trans hin.2 hout.2⟩

end ByteSet

/-- `p` holds of every byte; a byte is two hexadecimal digits. -/
def allBytes (p : UInt8 → Bool) : Bool :=
  (List.range 16).all fun m => (List.range 16).all fun n => p (16 * m + n).toUInt8

theorem of_allBytes {p : UInt8 → Bool} (h : allBytes p) (b : UInt8) : p b := by
  have hlt := b.toNat_lt
  have hhigh := List.all_eq_true.mp h (b.toNat / 16) (List.mem_range.mpr (by omega))
  have hlow := List.all_eq_true.mp hhigh (b.toNat % 16) (List.mem_range.mpr (by omega))
  rw [Nat.div_add_mod] at hlow
  simpa using hlow

/-! ## Facts

The facts are given for every node and every kind of span, and `Node.agrees` is a local condition
on them: what is known of the bytes at the target of an edge must follow from what is known at its
source and from the byte that has been looked at. A wrong or too strong fact makes the check fail,
so the facts of a scanner need no justification of their own. Sets that are `full` say nothing, and
most are. -/

structure Facts (N K : Type*) where
  /-- the next byte at a node -/
  ahead : N → ByteSet
  /-- the last byte that has been taken -/
  behind : N → ByteSet
  /-- the bytes of the open span -/
  inside : N → ByteSet
  /-- the byte before a span -/
  before : K → ByteSet
  /-- the byte behind a span, or else all of its bytes -/
  after : K → ByteSet
  /-- the bytes of a span -/
  bytes : K → ByteSet
  /-- the node takes bytes as they are -/
  plain : N → Bool

namespace Facts

variable (f : Facts N K)

/-- A byte that the node at `l` finds in `s` is in `t`. -/
def leads (fold : UInt8 → UInt8) (l : N) (s t : ByteSet) : Bool :=
  ByteSet.full.sub t || (f.ahead l).sub t ||
    if f.plain l then s.sub t else allBytes fun b => !s.has (fold b) || t.has b

/-- A byte that the node at `l` does not find in any of the cases is in `t`. -/
def falls (fold : UInt8 → UInt8) (l : N) (cases : List (ByteSet × Edge N)) (t : ByteSet) : Bool :=
  ByteSet.full.sub t || (f.ahead l).sub t ||
    allBytes fun b => (cases.any fun c => c.1.has (fold b)) || t.has b

def edge (l : N) (known : ByteSet → Bool) (e : Edge N) : Bool :=
  (f.inside l).sub (f.inside e.target) &&
    if e.advance then
      known (f.inside e.target) && known (f.behind e.target) && ByteSet.full.sub (f.ahead e.target)
    else known (f.ahead e.target) && (f.behind l).sub (f.behind e.target)

def pass (l t : N) : Bool :=
  (f.inside l).sub (f.inside t) && (f.ahead l).sub (f.ahead t) && (f.behind l).sub (f.behind t)

/-- The bytes of a word that the node at `l` takes on the way to `t`. -/
def spells (fold : UInt8 → UInt8) (l : N) (word : Bytes) (t : N) : Bool :=
  let s : ByteSet := word.map fun w => (w, w)
  f.leads fold l s (f.inside t) && f.leads fold l s (f.behind t) && (f.inside l).sub (f.inside t)
    && ByteSet.full.sub (f.ahead t)

end Facts

def Node.fold : Node N D K R → UInt8 → UInt8
  | .switch fold _ _ | .sequence fold _ _ _ => fold
  | _ => id

def Node.agrees (f : Facts N K) (l : N) : Node N D K R → Bool
  | .switch fold cases otherwise =>
      (cases.all fun c => f.edge l (f.leads fold l c.1) c.2) &&
        f.edge l (f.falls fold l cases) otherwise
  | .sequence fold word hit miss =>
      f.spells fold l word hit && f.spells fold l word miss && (f.behind l).sub (f.behind miss)
        && ByteSet.full.sub (f.ahead l)
        && f.leads fold l (word.map fun w => (w, w)) (f.inside l)
  | .consume target =>
      ByteSet.full.sub (f.inside l) && ByteSet.full.sub (f.inside target)
        && ByteSet.full.sub (f.behind target) && ByteSet.full.sub (f.ahead target)
  | .spanStart k target =>
      (f.ahead l).sub (f.ahead target) && (f.behind l).sub (f.behind target)
        && (f.behind l).sub (f.before k)
  | .spanEnd k advance target =>
      ((f.ahead l).sub (f.after k) || (f.inside l).sub (f.after k)) &&
        if advance then (f.ahead l).sub (f.behind target) && ByteSet.full.sub (f.ahead target)
        else (f.ahead l).sub (f.ahead target) && (f.behind l).sub (f.behind target)
  | .invoke _ cases otherwise => (otherwise :: cases.map Prod.snd).all fun t => f.pass l t
  | .report _ target => f.pass l target
  | .error _ _ _ => true

section Known

variable [DecidableEq K]

structure Facts.Agree (f : Facts N K) (sc : Scanner N D K R) : Prop where
  node : ∀ l, (sc.node l).agrees f l
  plain : ∀ l, f.plain l → (sc.node l).fold = id
  /-- where the input may end nothing is known of the next byte -/
  ahead : ∀ l, sc.annotation.looks l = false → ByteSet.full.sub (f.ahead l)
  bytes : ∀ l k, sc.annotation.span l = some k → (f.inside l).sub (f.bytes k)

variable {f : Facts N K} {sc : Scanner N D K R} {buf : Bytes}

/-- The bytes around a cursor are as the facts say. -/
structure Cursor.Known (f : Facts N K) (buf : Bytes) (c : Cursor N D K) : Prop where
  ahead : ∀ b, buf[c.pos]? = some b → (f.ahead c.label).has b
  behind : ∀ b, 0 < c.pos → buf[c.pos - 1]? = some b → (f.behind c.label).has b
  inside : ∀ k start, c.span = some (k, start) → ∀ b ∈ piece buf start c.pos,
    (f.inside c.label).has b
  before : ∀ k start, c.span = some (k, start) → ∀ b, 0 < start → buf[start - 1]? = some b →
    (f.before k).has b

/-- The bytes in and around a span are as the facts say. -/
structure Facts.SpanKnown (f : Facts N K) (buf : Bytes) (k : K) (start stop : Nat) : Prop where
  bytes : ∀ b ∈ piece buf start stop, (f.bytes k).has b
  before : ∀ b, 0 < start → buf[start - 1]? = some b → (f.before k).has b
  after : (∀ b, buf[stop]? = some b → (f.after k).has b) ∨
    ∀ b ∈ piece buf start stop, (f.after k).has b

/-! ## Bytes that are found

The case that a node chooses for a byte tells in which set the byte is, and the last case that it
is in none of them. A node that folds letters only tells this of the folded byte. -/

theorem Facts.leads_has (hf : f.Agree sc) {l : N} {s t : ByteSet}
    (h : f.leads (sc.node l).fold l s t) {b : UInt8} (hahead : (f.ahead l).has b)
    (hb : s.has ((sc.node l).fold b)) : t.has b := by
  unfold Facts.leads at h
  simp only [Bool.or_eq_true] at h
  rcases h with (hfull | hsub) | hsub
  · exact ByteSet.has_of_sub hfull (ByteSet.full_has b)
  · exact ByteSet.has_of_sub hsub hahead
  · split at hsub
    · case isTrue hplain =>
        rw [hf.plain l hplain] at hb
        exact ByteSet.has_of_sub hsub hb
    · have hall := of_allBytes hsub b
      simpa [hb] using hall

omit [DecidableEq K] in
theorem Facts.falls_has {fold : UInt8 → UInt8} {l : N} {cases : List (ByteSet × Edge N)}
    {t : ByteSet} (h : f.falls fold l cases t) {b : UInt8} (hahead : (f.ahead l).has b)
    (hb : ∀ c ∈ cases, ¬ c.1.has (fold b)) : t.has b := by
  unfold Facts.falls at h
  simp only [Bool.or_eq_true] at h
  rcases h with (hfull | hsub) | hall
  · exact ByteSet.has_of_sub hfull (ByteSet.full_has b)
  · exact ByteSet.has_of_sub hsub hahead
  · have hcase := of_allBytes hall b
    rcases Bool.or_eq_true _ _ |>.mp hcase with hany | ht
    · obtain ⟨c, hc, hhas⟩ := List.any_eq_true.mp hany
      exact absurd hhas (hb c hc)
    · exact ht

/-- The edge that is chosen for a byte agrees with the facts, for what is known of this byte. -/
theorem Facts.edge_choose (hf : f.Agree sc) {l : N} {fold : UInt8 → UInt8}
    {cases : List (ByteSet × Edge N)} {otherwise : Edge N}
    (hnode : sc.node l = .switch fold cases otherwise) {b : UInt8} (hahead : (f.ahead l).has b) :
    ∃ known : ByteSet → Bool, (∀ t, known t → t.has b) ∧
      f.edge l known (choose cases otherwise (fold b)) := by
  have hagrees := hf.node l
  simp only [hnode, Node.agrees, Bool.and_eq_true] at hagrees
  have hfold : (sc.node l).fold = fold := by rw [hnode]; rfl
  unfold choose
  cases hfind : cases.find? fun c => c.1.has (fold b) with
  | some c =>
      have hmem := List.mem_of_find?_eq_some hfind
      have hhas : c.1.has (fold b) := by simpa using List.find?_some hfind
      refine ⟨f.leads fold l c.1, fun t ht => ?_, List.all_eq_true.mp hagrees.1 c hmem⟩
      exact Facts.leads_has hf (hfold ▸ ht) hahead (hfold ▸ hhas)
  | none =>
      refine ⟨f.falls fold l cases, fun t ht => ?_, hagrees.2⟩
      exact Facts.falls_has ht hahead (fun c hc => by simpa using List.find?_eq_none.mp hfind c hc)

/-- What a comparison with a word has passed are bytes of the word. -/
def Match.Bytes (fold : UInt8 → UInt8) (word : Bytes) (taken : Nat) (x : Bytes) : Match → Prop
  | .complete n => ∃ u v, x = u ++ v ∧ n = taken + u.length ∧ u ≠ [] ∧ ∀ b ∈ u, fold b ∈ word
  | .mismatch n => ∃ u v, x = u ++ v ∧ n = taken + u.length ∧ ∀ b ∈ u, fold b ∈ word
  | .pause n _ => n = taken + x.length ∧ ∀ b ∈ x, fold b ∈ word
  | .overrun => True

theorem matchSequence_bytes (fold : UInt8 → UInt8) (word : Bytes) (index taken : Nat) (x : Bytes) :
    (matchSequence fold word index taken x).Bytes fold word taken x := by
  induction x generalizing index taken with
  | nil => exact ⟨rfl, by simp⟩
  | cons b x ih =>
      rw [matchSequence]
      split
      · trivial
      · case h_2 w hget =>
          have hmem : w ∈ word := List.mem_of_getElem? hget
          split
          · case isTrue heq =>
              rw [← heq] at hmem
              split
              · exact ⟨[b], x, rfl, by simp, by simp, by simpa using hmem⟩
              · have hrest := ih (index + 1) (taken + 1)
                cases hmatch : matchSequence fold word (index + 1) (taken + 1) x with
                | complete n =>
                    rw [hmatch] at hrest
                    obtain ⟨u, v, rfl, rfl, -, hu⟩ := hrest
                    exact ⟨b :: u, v, rfl, by simp; omega, by simp, by simpa using ⟨hmem, hu⟩⟩
                | mismatch n =>
                    rw [hmatch] at hrest
                    obtain ⟨u, v, rfl, rfl, hu⟩ := hrest
                    exact ⟨b :: u, v, rfl, by simp; omega, by simpa using ⟨hmem, hu⟩⟩
                | pause n i =>
                    rw [hmatch] at hrest
                    obtain ⟨rfl, hx⟩ := hrest
                    exact ⟨by simp; omega, by simpa using ⟨hmem, hx⟩⟩
                | overrun => trivial
          · exact ⟨[], b :: x, rfl, rfl, by simp⟩

theorem word_has {word : Bytes} {b : UInt8} (h : b ∈ word) :
    ByteSet.has (word.map fun w => (w, w)) b :=
  List.any_eq_true.mpr ⟨(b, b), List.mem_map.mpr ⟨b, h, rfl⟩, by simp⟩

/-! ## Cursors

What one visit keeps, by the kind of the node. The facts about the next byte refer to the piece
only while there is a next byte, and those about the last one only when it belongs to this piece;
at the ends of a piece nothing is known. -/

section Cursors

variable {c c' : Cursor N D K} {outs : List (Out K R)}

/-- Bytes are taken. -/
theorem Cursor.Known.take (hc : c.Ok sc buf) (hk : c.Known f buf) {t : N} {u v : Bytes}
    (hdrop : buf.drop c.pos = u ++ v) (hu : u ≠ [])
    (hinside : (f.inside c.label).sub (f.inside t)) (hin : ∀ b ∈ u, (f.inside t).has b)
    (hbehind : ∀ b ∈ u, (f.behind t).has b) (hahead : ByteSet.full.sub (f.ahead t)) (index : Nat)
    (data : D) : Cursor.Known f buf ⟨t, c.pos + u.length, index, c.span, data⟩ := by
  refine ⟨fun b _ => ByteSet.has_of_sub hahead (ByteSet.full_has b), ?_, ?_, hk.before⟩
  · intro b _ hb
    -- the last byte that has been taken is the last one of `u`
    have hlen : 0 < u.length := List.length_pos_iff.mpr hu
    have hpos : c.pos + u.length - 1 = c.pos + (u.length - 1) := by omega
    simp only [hpos] at hb
    rw [← List.getElem?_drop, hdrop, List.getElem?_append_left (by omega)] at hb
    exact hbehind b (List.mem_of_getElem? hb)
  · intro k start hspan b hb
    rw [piece_advance (hc.start k start hspan) hdrop, List.mem_append] at hb
    rcases hb with hb | hb
    · exact ByteSet.has_of_sub hinside (hk.inside k start hspan b hb)
    · exact hin b hb

omit [DecidableEq K] in
/-- Nothing is taken. -/
theorem Cursor.Known.pass (hk : c.Known f buf) {t : N}
    (hinside : (f.inside c.label).sub (f.inside t))
    (hahead : ∀ b, buf[c.pos]? = some b → (f.ahead t).has b)
    (hbehind : (f.behind c.label).sub (f.behind t)) (index : Nat) (data : D) :
    Cursor.Known f buf ⟨t, c.pos, index, c.span, data⟩ := by
  refine ⟨hahead, ?_, ?_, hk.before⟩
  · intro b hpos hb
    exact ByteSet.has_of_sub hbehind (hk.behind b hpos hb)
  · intro k start hspan b hb
    exact ByteSet.has_of_sub hinside (hk.inside k start hspan b hb)

theorem known_switch (hf : f.Agree sc) (hc : c.Ok sc buf) (hk : c.Known f buf)
    {fold : UInt8 → UInt8} {cases : List (ByteSet × Edge N)} {otherwise : Edge N}
    (hnode : sc.node c.label = .switch fold cases otherwise)
    (hvisit : sc.visit buf c = .goto c' outs) : c'.Known f buf ∧ outs = [] := by
  simp only [Machine.visit, Nat.not_lt.mpr hc.pos, if_false, hnode] at hvisit
  split at hvisit
  · cases hvisit
  · case h_2 b hget =>
      obtain ⟨rfl, rfl⟩ := Visit.goto.inj hvisit
      refine ⟨?_, rfl⟩
      obtain ⟨known, hknown, hedge⟩ := Facts.edge_choose hf hnode (hk.ahead b hget)
      simp only [Facts.edge, Bool.and_eq_true] at hedge
      obtain ⟨hinside, hrest⟩ := hedge
      split at hrest
      · case isTrue hadvance =>
          simp only [Bool.and_eq_true] at hrest
          obtain ⟨⟨hin, hbehind⟩, hahead⟩ := hrest
          have htake := hk.take hc (drop_of_getElem? hget) (by simp) hinside
            (by simpa using hknown _ hin) (by simpa using hknown _ hbehind) hahead c.index c.data
          simpa [hadvance] using htake
      · case isFalse hadvance =>
          simp only [Bool.and_eq_true] at hrest
          have hpass := hk.pass hinside (fun b' hb' => by
            rw [hget] at hb'
            cases hb'
            exact hknown _ hrest.1) hrest.2 c.index c.data
          simpa [hadvance] using hpass

theorem known_sequence (hf : f.Agree sc) (hc : c.Ok sc buf) (hk : c.Known f buf)
    {fold : UInt8 → UInt8} {word : Bytes} {hit miss : N}
    (hnode : sc.node c.label = .sequence fold word hit miss)
    (hvisit : sc.visit buf c = .goto c' outs) : c'.Known f buf ∧ outs = [] := by
  have hagrees := hf.node c.label
  simp only [hnode, Node.agrees, Facts.spells, Bool.and_eq_true] at hagrees
  obtain ⟨⟨⟨⟨hhit, hmiss⟩, hbehind⟩, hahead⟩, -⟩ := hagrees
  have hfold : (sc.node c.label).fold = fold := by rw [hnode]; rfl
  -- what is known of bytes of the word
  have hhas : ∀ t, f.leads fold c.label (word.map fun w => (w, w)) t →
      ∀ u : Bytes, (∀ b ∈ u, fold b ∈ word) → ∀ b ∈ u, t.has b := by
    intro t ht u hu b hb
    exact Facts.leads_has hf (hfold ▸ ht) (ByteSet.has_of_sub hahead (ByteSet.full_has b))
      (hfold ▸ word_has (hu b hb))
  simp only [Machine.visit, Nat.not_lt.mpr hc.pos, if_false, hnode] at hvisit
  have hbytes := matchSequence_bytes fold word c.index 0 (buf.drop c.pos)
  cases hmatch : matchSequence fold word c.index 0 (buf.drop c.pos) with
  | complete n =>
      rw [hmatch] at hvisit hbytes
      obtain ⟨rfl, rfl⟩ := Visit.goto.inj hvisit
      obtain ⟨u, v, hdrop, rfl, hne, hu⟩ := hbytes
      obtain ⟨⟨⟨hin, hbeh⟩, hinside⟩, hfull⟩ := hhit
      refine ⟨?_, rfl⟩
      simpa using hk.take hc hdrop hne hinside (hhas _ hin u hu) (hhas _ hbeh u hu) hfull 0 c.data
  | mismatch n =>
      rw [hmatch] at hvisit hbytes
      obtain ⟨rfl, rfl⟩ := Visit.goto.inj hvisit
      obtain ⟨u, v, hdrop, rfl, hu⟩ := hbytes
      obtain ⟨⟨⟨hin, hbeh⟩, hinside⟩, hfull⟩ := hmiss
      refine ⟨?_, rfl⟩
      by_cases hne : u = []
      · subst hne
        exact hk.pass hinside (fun b _ => ByteSet.has_of_sub hfull (ByteSet.full_has b)) hbehind 0
          c.data
      · simpa using hk.take hc hdrop hne hinside (hhas _ hin u hu) (hhas _ hbeh u hu) hfull 0 c.data
  | pause n index =>
      rw [hmatch] at hvisit
      cases hvisit
  | overrun =>
      rw [hmatch] at hvisit
      cases hvisit

theorem known_consume (hf : f.Agree sc) (hc : c.Ok sc buf) (hk : c.Known f buf) {target : N}
    (hnode : sc.node c.label = .consume target) (hvisit : sc.visit buf c = .goto c' outs) :
    c'.Known f buf ∧ outs = [] := by
  have hagrees := hf.node c.label
  simp only [hnode, Node.agrees, Bool.and_eq_true] at hagrees
  obtain ⟨⟨⟨-, hinside⟩, hbehind⟩, hahead⟩ := hagrees
  simp only [Machine.visit, Nat.not_lt.mpr hc.pos, if_false, hnode] at hvisit
  split at hvisit
  · obtain ⟨rfl, rfl⟩ := Visit.goto.inj hvisit
    have hfull : ∀ {t : ByteSet}, ByteSet.full.sub t → ∀ b, t.has b :=
      fun h b => ByteSet.has_of_sub h (ByteSet.full_has b)
    refine ⟨⟨fun b _ => hfull hahead b, fun b _ _ => hfull hbehind b,
      fun k start _ b _ => hfull hinside b, hk.before⟩, rfl⟩
  · cases hvisit

theorem known_spanStart (hf : f.Agree sc) (hc : c.Ok sc buf) (hk : c.Known f buf) {k : K}
    {target : N} (hnode : sc.node c.label = .spanStart k target)
    (hvisit : sc.visit buf c = .goto c' outs) : c'.Known f buf ∧ outs = [] := by
  have hagrees := hf.node c.label
  simp only [hnode, Node.agrees, Bool.and_eq_true] at hagrees
  obtain ⟨⟨hahead, hbehind⟩, hbefore⟩ := hagrees
  simp only [Machine.visit, Nat.not_lt.mpr hc.pos, if_false, hnode] at hvisit
  split at hvisit
  · cases hvisit
  · obtain ⟨rfl, rfl⟩ := Visit.goto.inj hvisit
    refine ⟨⟨?_, ?_, ?_, ?_⟩, rfl⟩
    · exact fun b hb => ByteSet.has_of_sub hahead (hk.ahead b hb)
    · exact fun b hpos hb => ByteSet.has_of_sub hbehind (hk.behind b hpos hb)
    · rintro _ _ ⟨⟩ b hb
      rw [piece_self] at hb
      cases hb
    · rintro _ _ ⟨⟩ b hpos hb
      exact ByteSet.has_of_sub hbefore (hk.behind b hpos hb)

theorem known_spanEnd (hf : f.Agree sc) (hc : c.Ok sc buf) (hk : c.Known f buf) {k : K}
    {advance : Bool} {target : N} (hnode : sc.node c.label = .spanEnd k advance target)
    (hvisit : sc.visit buf c = .goto c' outs) :
    c'.Known f buf ∧ ∃ start, outs = [.span k start c.pos] ∧ f.SpanKnown buf k start c.pos := by
  have hagrees := hf.node c.label
  simp only [hnode, Node.agrees, Bool.and_eq_true] at hagrees
  obtain ⟨hafter, hnext⟩ := hagrees
  have hfits := sc.fits c.label
  simp only [hnode, Node.fits, Bool.and_eq_true, decide_eq_true_eq] at hfits
  have hspan := hfits.1.1.1
  obtain ⟨⟨k', start⟩, hopen, hk'⟩ :=
    Option.map_eq_some_iff.mp ((hc.span_eq (by rw [hnode]; rfl)).trans hspan)
  obtain rfl : k' = k := hk'
  simp only [Machine.visit, Nat.not_lt.mpr hc.pos, if_false, hnode, hopen] at hvisit
  obtain ⟨rfl, rfl⟩ := Visit.goto.inj hvisit
  refine ⟨?_, start, rfl, ?_, ?_, ?_⟩
  · cases advance with
    | true =>
        simp only [if_true, Bool.and_eq_true] at hnext
        refine ⟨fun b _ => ByteSet.has_of_sub hnext.2 (ByteSet.full_has b), ?_, by simp, by simp⟩
        intro b _ hb
        exact ByteSet.has_of_sub hnext.1 (hk.ahead b (by simpa using hb))
    | false =>
        simp only [Bool.false_eq_true, if_false, Bool.and_eq_true] at hnext
        exact ⟨fun b hb => ByteSet.has_of_sub hnext.1 (hk.ahead b hb),
          fun b hpos hb => ByteSet.has_of_sub hnext.2 (hk.behind b hpos hb), by simp, by simp⟩
  · intro b hb
    exact ByteSet.has_of_sub (hf.bytes c.label k' hspan) (hk.inside k' start hopen b hb)
  · exact hk.before k' start hopen
  · rcases Bool.or_eq_true _ _ |>.mp hafter with hnextset | hall
    · exact .inl fun b hb => ByteSet.has_of_sub hnextset (hk.ahead b hb)
    · exact .inr fun b hb => ByteSet.has_of_sub hall (hk.inside k' start hopen b hb)

/-- The facts are kept by a visit, and hold of the span that it calls back. -/
theorem Cursor.Known.visit (hf : f.Agree sc) (hc : c.Ok sc buf) (hk : c.Known f buf)
    (hvisit : sc.visit buf c = .goto c' outs) :
    c'.Known f buf ∧ ∀ k start stop, .span k start stop ∈ outs → f.SpanKnown buf k start stop := by
  have hsilent : c'.Known f buf ∧ outs = [] →
      c'.Known f buf ∧ ∀ k start stop, .span k start stop ∈ outs → f.SpanKnown buf k start stop := by
    rintro ⟨hk', rfl⟩
    exact ⟨hk', by simp⟩
  have hagrees := hf.node c.label
  cases hnode : sc.node c.label with
  | switch => exact hsilent (known_switch hf hc hk hnode hvisit)
  | sequence => exact hsilent (known_sequence hf hc hk hnode hvisit)
  | consume => exact hsilent (known_consume hf hc hk hnode hvisit)
  | spanStart => exact hsilent (known_spanStart hf hc hk hnode hvisit)
  | spanEnd =>
      obtain ⟨hk', start, rfl, hspan⟩ := known_spanEnd hf hc hk hnode hvisit
      refine ⟨hk', fun k start stop hmem => ?_⟩
      cases List.mem_singleton.mp hmem
      exact hspan
  | invoke g cases otherwise =>
      simp only [hnode, Node.agrees] at hagrees
      have hpass := List.all_eq_true.mp hagrees _ (lookup_mem cases otherwise (g c.data).2)
      simp only [Facts.pass, Bool.and_eq_true] at hpass
      simp only [Machine.visit, Nat.not_lt.mpr hc.pos, if_false, hnode] at hvisit
      obtain ⟨rfl, rfl⟩ := Visit.goto.inj hvisit
      exact ⟨hk.pass hpass.1.1 (fun b hb => ByteSet.has_of_sub hpass.1.2 (hk.ahead b hb)) hpass.2
        c.index _, by simp⟩
  | report r target =>
      simp only [hnode, Node.agrees, Facts.pass, Bool.and_eq_true] at hagrees
      simp only [Machine.visit, Nat.not_lt.mpr hc.pos, if_false, hnode] at hvisit
      obtain ⟨rfl, rfl⟩ := Visit.goto.inj hvisit
      exact ⟨hk.pass hagrees.1.1 (fun b hb => ByteSet.has_of_sub hagrees.1.2 (hk.ahead b hb))
        hagrees.2 c.index c.data, by simp⟩
  | error errno reason resume =>
      simp [Machine.visit, Nat.not_lt.mpr hc.pos, hnode] at hvisit

theorem Path.known (hf : f.Agree sc) (hc : c.Ok sc buf) (hk : c.Known f buf)
    (h : Path sc.toMachine buf c outs c') :
    c'.Known f buf ∧ ∀ k start stop, .span k start stop ∈ outs → f.SpanKnown buf k start stop := by
  induction h with
  | refl c => exact ⟨hk, by simp⟩
  | step hvisit _ ih =>
      obtain ⟨hk', houts⟩ := hk.visit hf hc hvisit
      obtain ⟨hk'', houts'⟩ := ih ((Path.step hvisit (.refl _)).ok hc) hk'
      refine ⟨hk'', fun k start stop hmem => ?_⟩
      rcases List.mem_append.mp hmem with hmem | hmem
      · exact houts k start stop hmem
      · exact houts' k start stop hmem

/-- A span that is open at the end of the piece. -/
theorem Cursor.Known.pause (hf : f.Agree sc) (hc : c.Ok sc buf) (hk : c.Known f buf)
    (hvisit : sc.visit buf c = .halt (.pause c')) {k : K} {start : Nat}
    (hopen : c'.span = some (k, start)) : f.SpanKnown buf k start buf.length := by
  obtain ⟨hlabel, hspan, -⟩ := visit_pause hvisit
  rw [hspan] at hopen
  have hspec := visit_spec hc
  rw [hvisit] at hspec
  have hkind : sc.annotation.span c.label = some k := by
    cases hspec with
    | pause hwaits => rw [← hlabel, ← hwaits.span, hspan, hopen]; rfl
  have hinside : ∀ b ∈ piece buf start buf.length, (f.inside c.label).has b := by
    have hagrees := hf.node c.label
    have hstart := hc.start k start hopen
    have hpos := hc.pos
    -- what comes up to the end of the piece behind what is known
    have hsplit : piece buf start buf.length = piece buf start c.pos ++ buf.drop c.pos := by
      have hadvance := piece_advance hstart (show buf.drop c.pos = buf.drop c.pos ++ [] by simp)
      rwa [List.length_drop, Nat.add_sub_cancel' hpos] at hadvance
    intro b hb
    rw [hsplit, List.mem_append] at hb
    rcases hb with hb | hb
    · exact hk.inside k start hopen b hb
    · simp only [Machine.visit, Nat.not_lt.mpr hpos, if_false] at hvisit
      cases hnode : sc.node c.label with
      | switch fold cases otherwise =>
          simp only [hnode] at hvisit
          split at hvisit
          · case h_1 hget =>
              rw [List.drop_eq_nil_of_le (List.getElem?_eq_none_iff.mp hget)] at hb
              cases hb
          · cases hvisit
      | sequence fold word hit miss =>
          simp only [hnode, Node.agrees, Bool.and_eq_true] at hagrees
          have hfold : (sc.node c.label).fold = fold := by rw [hnode]; rfl
          have hbytes := matchSequence_bytes fold word c.index 0 (buf.drop c.pos)
          simp only [hnode] at hvisit
          split at hvisit
          · cases hvisit
          · case h_2 hmatch =>
              rw [hmatch] at hbytes
              exact Facts.leads_has hf (hfold ▸ hagrees.2)
                (ByteSet.has_of_sub hagrees.1.2 (ByteSet.full_has b))
                (hfold ▸ word_has (hbytes.2 b hb))
          · cases hvisit
          · cases hvisit
      | consume target =>
          simp only [hnode, Node.agrees, Bool.and_eq_true] at hagrees
          exact ByteSet.has_of_sub hagrees.1.1.1 (ByteSet.full_has b)
      | spanStart k' target =>
          have hfits := sc.fits c.label
          simp only [hnode, Node.fits, Bool.and_eq_true, decide_eq_true_eq] at hfits
          rw [hfits.1] at hkind
          cases hkind
      | spanEnd k' advance target =>
          simp only [hnode] at hvisit
          split at hvisit <;> cases hvisit
      | invoke | report | error => simp [hnode] at hvisit
  refine ⟨fun b hb => ByteSet.has_of_sub (hf.bytes c.label k hkind) (hinside b hb),
    hk.before k start hopen, .inl fun b hb => ?_⟩
  rw [List.getElem?_eq_none (Nat.le_refl _)] at hb
  cases hb

end Cursors

/-- **The bytes of what a call reports** are as the facts say. -/
theorem call_known (hf : f.Agree sc) (s : Resting sc) (buf : Bytes) {k : K} {start stop : Nat}
    (hmem : .span k start stop ∈ (s.call buf).2.1) : f.SpanKnown buf k start stop := by
  by_cases herror : s.state.error = 0
  · obtain ⟨c, hat⟩ := s.ok.at herror
    have hc : c.cursor.Ok sc buf := s.ok.cursor hat
    have hlooks : sc.annotation.looks c.label = false := by
      simpa using s.ok.looks c.label hat.current
    have hk : c.cursor.Known f buf := by
      have hspan : ∀ k start, c.cursor.span = some (k, start) → start = 0 := by
        intro k start h
        obtain ⟨k', -, heq⟩ := Option.map_eq_some_iff.mp h
        exact (Prod.ext_iff.mp heq).2.symm
      refine ⟨fun b _ => ByteSet.has_of_sub (hf.ahead c.label hlooks) (ByteSet.full_has b),
        fun b hpos => absurd hpos (Nat.lt_irrefl 0), ?_, ?_⟩
      · intro k start h b hb
        rw [hspan k start h] at hb
        simp [Config.cursor, piece] at hb
      · intro k start h b hpos
        rw [hspan k start h] at hpos
        exact absurd hpos (Nat.lt_irrefl 0)
    cases call_path hat buf with
    | @pause outs d d' path visit _ outs_eq =>
        obtain ⟨hd, houts⟩ := path.known hf hc hk
        rw [outs_eq, List.mem_append] at hmem
        rcases hmem with hmem | hmem
        · exact houts k start stop hmem
        · obtain ⟨⟨k', start'⟩, hopen, heq⟩ := Option.map_eq_some_iff.mp (Option.mem_toList.mp hmem)
          cases heq
          exact hd.pause hf (path.ok hc) visit hopen
    | error path _ _ outs_eq =>
        rw [outs_eq] at hmem
        exact (path.known hf hc hk).2 k start stop hmem
  · rw [Resting.call_error herror] at hmem
    cases hmem

end Known

end Rslinker.Scan
