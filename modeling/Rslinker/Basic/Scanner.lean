import Rslinker.Basic.LittleEndian

set_option autoImplicit false

/-! # Resumable scanners

A scanner reads an input that comes in pieces. It is a graph of nodes, each of which looks at the
next byte, takes bytes, changes the data of the scanner or calls back. Where a piece ends it
remembers its node, and the next piece goes on there. A part of the input that it reports is a
span: it is called back with the two ends of the span in the piece, and at the end of the piece
with what it has of a span that is still open.

`visit` does what one node does, with positions in the piece in the place of pointers; `run`
follows the nodes to the end of the piece; `execute` is a call with one piece. What would be an
access outside of the piece is an `overrun`. The nodes `N`, the data `D`, the spans `K` and the
reports `R` are any types.
-/

namespace Rslinker.Scan

/-! ## Nodes

There is one constructor for each kind of node that a generator of such parsers emits. `switch`
covers single bytes, ranges and tables of bytes; `sequence` is a comparison with a word, which may
be interrupted by the end of a piece and then goes on at its `index`; `consume` passes a number of
bytes that is in the data. `invoke` runs a function on the data, whose result selects the next
node. A node with `fold` looks at bytes in lower case.

`choose` and `lookup` take the first case that fits, as a `switch` with disjoint cases does. -/

/-- A set of bytes, as a list of ranges with their ends. -/
abbrev ByteSet := List (UInt8 × UInt8)

def ByteSet.has (set : ByteSet) (b : UInt8) : Bool := set.any fun r => r.1 ≤ b && b ≤ r.2

/-- Where a byte leads, and whether it is taken on the way. -/
structure Edge (N : Type*) where
  advance : Bool
  target : N

inductive Node (N D K R : Type*)
  /-- goes where the first set with the next byte leads -/
  | switch (fold : UInt8 → UInt8) (cases : List (ByteSet × Edge N)) (otherwise : Edge N)
  /-- takes a word, which may come in several pieces -/
  | sequence (fold : UInt8 → UInt8) (word : Bytes) (hit miss : N)
  /-- takes as many bytes as the data say -/
  | consume (target : N)
  /-- opens a span at the next byte -/
  | spanStart (span : K) (target : N)
  /-- calls back with the span up to the next byte, which it may take -/
  | spanEnd (span : K) (advance : Bool) (target : N)
  /-- changes the data, and goes where the result leads -/
  | invoke (f : D → D × Nat) (cases : List (Nat × N)) (otherwise : N)
  /-- calls back without a span -/
  | report (r : R) (target : N)
  /-- returns an error -/
  | error (errno : Nat) (reason : String) (resume : Option N)

/-- A graph of nodes, and how many bytes `consume` has to take. -/
structure Machine (N D K R : Type*) where
  node : N → Node N D K R
  need : D → Nat
  spend : D → Nat → D
  need_spend : ∀ d n, need (spend d n) = need d - n
  spend_zero : ∀ d, spend d 0 = d
  spend_spend : ∀ d m n, spend (spend d m) n = spend d (m + n)

variable {N D K R : Type*}

def choose (cases : List (ByteSet × Edge N)) (otherwise : Edge N) (b : UInt8) : Edge N :=
  ((cases.find? fun c => c.1.has b).map Prod.snd).getD otherwise

def lookup (cases : List (Nat × N)) (otherwise : N) (code : Nat) : N :=
  ((cases.find? fun c => c.1 = code).map Prod.snd).getD otherwise

/-! ## One piece of the input

Positions are numbers and not pointers, so a read behind the end of the piece can be told from a
read inside. All three ways to go wrong are one value: a position behind the end, an index behind
the end of a word, and the end of a span where none is open. That none of them happens is a theorem
about a scanner and not built into `visit`. -/

/-- What is called back: a span from one position to another, or a report. -/
inductive Out (K R : Type*)
  | span (k : K) (start stop : Nat)
  | report (r : R)
  deriving DecidableEq

/-- The local state of a run. An open span comes with the position where it starts. -/
structure Cursor (N D K : Type*) where
  label : N
  pos : Nat
  index : Nat
  span : Option (K × Nat)
  data : D

/-- How a run ends. -/
inductive Halt (N D K : Type*)
  /-- it waits for the next piece -/
  | pause (c : Cursor N D K)
  | error (errno : Nat) (reason : String) (resume : Option N) (c : Cursor N D K)
  /-- it has left the piece or a word of a node, or there is no span to end -/
  | overrun

inductive Visit (N D K R : Type*)
  | goto (c : Cursor N D K) (outs : List (Out K R))
  | halt (h : Halt N D K)

/-- How the comparison of the input with a word ends, and how many bytes it has passed. -/
inductive Match
  | complete (taken : Nat)
  | pause (taken index : Nat)
  | mismatch (taken : Nat)
  | overrun

/-- Compares the input with `word` from `index` on. -/
def matchSequence (fold : UInt8 → UInt8) (word : Bytes) : Nat → Nat → Bytes → Match
  | index, taken, [] => .pause taken index
  | index, taken, b :: rest =>
      match word[index]? with
      | none => .overrun
      | some w =>
          if fold b = w then
            if index + 1 = word.length then .complete (taken + 1)
            else matchSequence fold word (index + 1) (taken + 1) rest
          else .mismatch taken

namespace Machine

/-- What the node at the cursor does with the piece `buf`. -/
def visit (m : Machine N D K R) (buf : Bytes) (c : Cursor N D K) : Visit N D K R :=
  if buf.length < c.pos then .halt .overrun
  else match m.node c.label with
    | .switch fold cases otherwise =>
        match buf[c.pos]? with
        | none => .halt (.pause c)
        | some b =>
            let e := choose cases otherwise (fold b)
            .goto { c with label := e.target, pos := if e.advance then c.pos + 1 else c.pos } []
    | .sequence fold word hit miss =>
        match matchSequence fold word c.index 0 (buf.drop c.pos) with
        | .complete taken => .goto { c with label := hit, pos := c.pos + taken, index := 0 } []
        | .pause taken index => .halt (.pause { c with pos := c.pos + taken, index := index })
        | .mismatch taken => .goto { c with label := miss, pos := c.pos + taken, index := 0 } []
        | .overrun => .halt .overrun
    | .consume target =>
        let avail := buf.length - c.pos
        let need := m.need c.data
        if need ≤ avail then
          .goto { c with label := target, pos := c.pos + need, data := m.spend c.data need } []
        else .halt (.pause { c with data := m.spend c.data avail })
    | .spanStart k target =>
        if c.pos = buf.length then .halt (.pause c)
        else .goto { c with label := target, span := some (k, c.pos) } []
    | .spanEnd k advance target =>
        match c.span with
        | none => .halt .overrun
        | some (_, start) =>
            .goto { c with label := target, pos := if advance then c.pos + 1 else c.pos, span := none }
              [.span k start c.pos]
    | .invoke f cases otherwise =>
        let (data, code) := f c.data
        .goto { c with label := lookup cases otherwise code, data := data } []
    | .report r target => .goto { c with label := target } [.report r]
    | .error errno reason resume => .halt (.error errno reason resume c)

/-- Follows the nodes; `none` when the fuel has run out. -/
def run (m : Machine N D K R) (buf : Bytes) :
    Nat → Cursor N D K → Option (List (Out K R) × Halt N D K)
  | 0, _ => none
  | fuel + 1, c =>
      match m.visit buf c with
      | .goto c outs => (run m buf fuel c).map fun r => (outs ++ r.1, r.2)
      | .halt h => some ([], h)

end Machine

/-! ## Calls

Between two calls only the kind of an open span is known: its start in the last piece has no
meaning for the next one, in which it starts at the first byte. -/

/-- What a scanner remembers between two calls. `span` is the kind of the span that is open. -/
structure State (N D K : Type*) where
  current : Option N
  index : Nat
  span : Option K
  error : Nat
  reason : String
  data : D

/-- The call for a span that is open at the end of a piece. -/
def flush (span : Option (K × Nat)) (stop : Nat) : List (Out K R) :=
  (span.map fun k => .span k.1 k.2 stop).toList

/-- A call with the piece `buf`: the state after it, what is called back and the error it returns.
An error that is there stays, and the spans start again with the piece. It is `none` when the run
does not end, overruns or starts at no node. -/
def Machine.execute (m : Machine N D K R) (fuel : Nat) (s : State N D K) (buf : Bytes) :
    Option (State N D K × List (Out K R) × Nat) :=
  if s.error ≠ 0 then some (s, [], s.error)
  else s.current.bind fun l =>
    match m.run buf fuel ⟨l, 0, s.index, s.span.map fun k => (k, 0), s.data⟩ with
    | some (outs, .pause c) =>
        some (⟨some c.label, c.index, c.span.map Prod.fst, 0, s.reason, c.data⟩,
          outs ++ flush c.span buf.length, 0)
    | some (outs, .error errno reason resume c) =>
        some (⟨resume, c.index, c.span.map Prod.fst, errno, reason, c.data⟩, outs, errno)
    | some (_, .overrun) | none => none

end Rslinker.Scan
