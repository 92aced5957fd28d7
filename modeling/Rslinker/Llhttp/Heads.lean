import Rslinker.Llhttp.RequestLine

set_option autoImplicit false

/-! # Heads

A head is its request line and its fields. `readHead` is what a head leaves in the data, or its
error: that of the URL, or else that of the first bad field. Nothing of an earlier message counts in
it (`readHead_congr`).

A head here is well formed: its method and its version exist, its URL ends at a space, and every
field is a name and a value on one line. It may still be an error, since llhttp checks the URL and
the values of some fields.
-/

namespace Rslinker.Internal

open Scan

/-! ## The function

A head leaves flags, a length, a method and a version in the data. The request line comes first, so
an error in it wins over one in a field, and of the fields the first bad one counts. -/

/-- What is known of the parts of a head before llhttp has read them: its method and its version
are ones that there are. -/
structure IsHead (head : Head) (code major minor : Nat) : Prop where
  method : (head.method, code) ∈ httpMethods
  url_ne : head.url ≠ []
  url : IsUrlText head.url
  version : (head.version, major, minor) ∈ httpVersions
  fields : AreFields head.fields

def requestLine (d : Internal) (code major minor : Nat) : Internal :=
  { d with finish := 2, method := code, httpMajor := major, httpMinor := minor }

/-- The data behind a head, or the number of its error. -/
def readHead (d : Internal) (head : Head) (code major minor : Nat) : Except Nat Internal :=
  if urlOk (code = 5) head.url then (d.requestLine code major minor).fields head.fields
  else .error 7

def lineEvents (d : Internal) (head : Head) : List (Event Span Report) :=
  beginEvents d ++ (eatenAll (some .method) head.method ++ [.report .methodComplete]
    ++ (eatenAll (some .url) head.url ++ [.report .urlComplete]
      ++ (eatenAll (some .version) head.version ++ [.report .versionComplete])))

/-- What is called back of a head before its end. -/
def headEvents (d : Internal) (head : Head) : List (Event Span Report) :=
  lineEvents d head ++ fieldsEvents head.fields

def announce (d : Internal) : Internal := d.beforeHeadersComplete.1

/-! ## The request line

Method, URL and version are read one after the other, each with its own nodes. Only the URL can be
an error here, since `IsHead` says of the others that they are among those that there are. -/

theorem code_lt {m : Bytes × Nat} (h : m ∈ httpMethods) : m.2 < 34 := by
  have hall : ∀ m ∈ httpMethods, m.2 < 34 := by decide
  exact hall m h

theorem method_cons {m : Bytes × Nat} (h : m ∈ httpMethods) :
    ∃ b rest, m.1 = b :: rest ∧ b ≠ 10 ∧ b ≠ 13 := by
  have hall : ∀ m ∈ httpMethods, m.1.head?.any fun b => b != 10 && b != 13 := by decide
  have hm := hall m h
  rcases hname : m.1 with _ | ⟨b, rest⟩
  · rw [hname] at hm
    cases hm
  · rw [hname] at hm
    exact ⟨b, rest, rfl, by simpa using hm⟩

/-- **A request line is read**, or its URL is an error. -/
theorem line_outcome (d : Internal) {head : Head} {code major minor : Nat}
    (h : IsHead head code major minor) {b : UInt8} (hb : b ≠ 32) (y : Bytes) :
    if urlOk (code = 5) head.url then
      Steps machine (startConfig d)
        (head.method ++ 32 :: (head.url ++ 32 :: 72 :: 84 :: 84 :: 80 :: 47 ::
          (head.version ++ 13 :: 10 :: b :: y)))
        (lineEvents d head) ⟨.headerFieldStart, 0, none, d.requestLine code major minor⟩ (b :: y)
    else
      Rejects machine (startConfig d)
        (head.method ++ 32 :: (head.url ++ 32 :: 72 :: 84 :: 84 :: 80 :: 47 ::
          (head.version ++ 13 :: 10 :: b :: y))) 7 := by
  obtain ⟨m, rest, hname, hm⟩ := method_cons h.method
  have hbegin := begin_steps d hm
    (rest ++ 32 :: (head.url ++ 32 :: 72 :: 84 :: 84 :: 80 :: 47 ::
      (head.version ++ 13 :: 10 :: b :: y)))
  rw [← List.cons_append, ← show head.method = m :: rest from hname] at hbegin
  have hmethod := method_steps { d with finish := 2 } h.method
    (head.url ++ 32 :: 72 :: 84 :: 84 :: 80 :: 47 :: (head.version ++ 13 :: 10 :: b :: y))
  have hurl := url_outcome { d with finish := 2, method := code } h.url_ne h.url
    (84 :: 84 :: 80 :: 47 :: (head.version ++ 13 :: 10 :: b :: y))
  have hopen := hbegin.trans hmethod
  split
  · case isTrue hok =>
      rw [show urlOk (decide (code = 5)) head.url = true from hok] at hurl
      have hversion := version_steps (d := { d with finish := 2, method := code })
        (code_lt h.method) h.version hb y
      have hline := hopen.trans (hurl.trans hversion)
      rwa [List.append_assoc] at hline
  · case isFalse hbad =>
      rw [show urlOk (decide (code = 5)) head.url = false from by simpa using hbad] at hurl
      exact hopen.rejects hurl

/-! ## The end of a head

The empty line. The same nodes end a head and the trailers of a body; `F_TRAILING` says which of
the two it is, and where to go on. -/

theorem endHead_steps {d : Internal} (h : d.flags.trailing = false) (y : Bytes) :
    Steps machine ⟨.headerFieldStart, 0, none, d⟩ (13 :: 10 :: y) []
      ⟨.invokeOnHeadersComplete1, 0, none, d.announce⟩ y := by
  have hline : Steps machine ⟨.headerFieldStart, 0, none, d⟩ (13 :: 10 :: y) []
      ⟨.invokeTestFlags1, 0, none, d⟩ y := Machine.steps_of_follow 2 rfl
  have htest := Machine.invoke_steps (m := machine) (l := .invokeTestFlags1) rfl
    (none : Option Span) d y
  have hlookup : lookup [(1, Label.invokeOnChunkComplete2)] .invokeBeforeHeadersComplete1
      (testFlags d).2 = .invokeBeforeHeadersComplete1 := by simp [testFlags, h, lookup]
  rw [hlookup] at htest
  have hbefore := Machine.invoke_steps (m := machine) (l := .invokeBeforeHeadersComplete1) rfl
    (none : Option Span) d y
  exact hline.trans (htest.trans hbefore)

theorem endTrailers_steps {d : Internal} (h : d.flags.trailing = true) (y : Bytes) :
    Steps machine ⟨.headerFieldStart, 0, none, d⟩ (13 :: 10 :: y) [.report .chunkComplete]
      ⟨.invokeOnMessageComplete2, 0, none, d⟩ y := by
  have hline : Steps machine ⟨.headerFieldStart, 0, none, d⟩ (13 :: 10 :: y) []
      ⟨.invokeTestFlags1, 0, none, d⟩ y := Machine.steps_of_follow 2 rfl
  have htest := Machine.invoke_steps (m := machine) (l := .invokeTestFlags1) rfl
    (none : Option Span) d y
  have hlookup : lookup [(1, Label.invokeOnChunkComplete2)] .invokeBeforeHeadersComplete1
      (testFlags d).2 = .invokeOnChunkComplete2 := by simp [testFlags, h, lookup]
  rw [hlookup] at htest
  exact hline.trans (htest.trans (.of_quiet rfl))

/-! ## Heads -/

/-- How a head is read up to the report of its end, or that it has an error. -/
def HeadOutcome (c : Config Label Internal Span) (x : Bytes) (es : List (Event Span Report))
    (y : Bytes) : Except Nat Internal → Prop
  | .ok d => ∃ s, Steps machine c x es ⟨.invokeOnHeadersComplete1, 0, none,
      ({ d with headerState := s } : Internal).announce⟩ y
  | .error errno => Rejects machine c x errno

/-- Between two messages there are no flags and no length. -/
structure Fresh (d : Internal) : Prop where
  flags : d.flags = .none
  contentLength : d.contentLength = 0

theorem Fresh.framed {d : Internal} (h : d.Fresh) (code major minor : Nat) :
    (d.requestLine code major minor).Framed := by
  obtain ⟨hflags, hlength⟩ := h
  refine ⟨fun _ => hlength, ?_, ?_, ?_⟩
  · rw [show (d.requestLine code major minor).contentLength = 0 from hlength]
    decide
  · intro _
    rw [show (d.requestLine code major minor).flags = .none from hflags]
    rfl
  · intro hchunked
    rw [show (d.requestLine code major minor).flags = .none from hflags] at hchunked
    cases hchunked

/-- The bytes of a head, without the brackets of its definition. -/
theorem headBytes_append (head : Head) (y : Bytes) :
    head.bytes ++ y = head.method ++ 32 :: (head.url ++ 32 :: 72 :: 84 :: 84 :: 80 :: 47 ::
      (head.version ++ 13 :: 10 :: (fieldsBytes head.fields ++ 13 :: 10 :: y))) := by
  simp [Head.bytes, fieldsBytes, fieldBytes]

/-- **A head is read**, or it has the error that `readHead` has for it. -/
theorem head_outcome {d : Internal} (hd : d.Fresh) {head : Head} {code major minor : Nat}
    (h : IsHead head code major minor) (y : Bytes) :
    HeadOutcome (startConfig d) (head.bytes ++ y) (headEvents d head) y
      (d.readHead head code major minor) := by
  obtain ⟨b, z, hnext, hb⟩ := next_field h.fields (b := 13) rfl (10 :: y)
  have hb32 : b ≠ 32 := by
    rintro rfl
    cases hb
  have hline := line_outcome d h hb32 z
  rw [headBytes_append, hnext]
  unfold readHead
  split
  · case isTrue hok =>
      rw [if_pos hok, ← hnext] at hline
      rw [← hnext]
      have hframed := hd.framed code major minor
      have hfields := fields_outcome hframed h.fields (b := 13) rfl (10 :: y)
      cases hresult : (d.requestLine code major minor).fields head.fields with
      | error errno =>
          rw [hresult] at hfields
          exact hline.rejects hfields
      | ok d' =>
          rw [hresult] at hfields
          obtain ⟨s, hsteps⟩ := hfields
          have htrailing : d'.flags.trailing = false := by
            rw [(hframed.fields hresult).2]
            exact congrArg Flags.trailing hd.flags
          have hend := endHead_steps (d := { d' with headerState := s }) htrailing y
          exact ⟨s, hline.trans (hsteps.silent hend)⟩
  · case isFalse hbad =>
      rw [if_neg hbad] at hline
      exact hline

/-! ## What does not count

The head of a later message starts from other data than the first one: the header state of the last
field is still there, and so is whether the last message asked for an upgrade, and that there has
been one. `forget` leaves these out. A field gives the same result without them, and the request
line sets everything else, so a head is read as if it were the first one. -/

/-- The data without the fields that are set before they are read. -/
def forget (d : Internal) : Internal :=
  { d with headerState := 0, upgrade := false, initialMessageCompleted := false }

/-- A field does the same to the same flags and lengths. -/
theorem field_forget (d : Internal) (name value : Bytes) :
    (d.field name value).map forget = (d.forget.field name value).map forget := by
  unfold field fieldValue
  dsimp only [forget]
  repeat' split
  all_goals first | rfl | simp_all [addOptions_eq, general, Except.map, forget]

/-- Two results with the same data but for what does not count. -/
theorem forget_cases {r r' : Except Nat Internal} (h : r.map forget = r'.map forget) :
    (∃ errno, r = .error errno ∧ r' = .error errno) ∨
      ∃ d e, r = .ok d ∧ r' = .ok e ∧ d.forget = e.forget := by
  cases r with
  | error errno =>
      cases r' with
      | error errno' => exact .inl ⟨errno, rfl, by rw [Except.error.inj h]⟩
      | ok e => cases h
  | ok d =>
      cases r' with
      | error errno' => cases h
      | ok e => exact .inr ⟨d, e, rfl, rfl, Except.ok.inj h⟩

theorem fields_forget (d : Internal) (es : List (Bytes × Bytes)) :
    (d.fields es).map forget = (d.forget.fields es).map forget := by
  induction es generalizing d with
  | nil => rfl
  | cons e es ih =>
      rw [fields, fields]
      rcases forget_cases (field_forget d e.1 e.2) with
        ⟨errno, hleft, hright⟩ | ⟨d₁, d₂, hleft, hright, hsame⟩
      · rw [hleft, hright]
      · rw [hleft, hright]
        calc (d₁.fields es).map forget = (d₁.forget.fields es).map forget := ih d₁
          _ = (d₂.forget.fields es).map forget := by rw [hsame]
          _ = (d₂.fields es).map forget := (ih d₂).symm

theorem Fresh.requestLine {d : Internal} (h : d.Fresh) (code major minor : Nat) :
    (d.requestLine code major minor).forget = (init.requestLine code major minor).forget := by
  obtain ⟨hflags, hlength⟩ := h
  simp [forget, Internal.requestLine, init, hflags, hlength]

/-- **A head is read like the first one.** -/
theorem readHead_congr {d : Internal} (h : d.Fresh) (head : Head) (code major minor : Nat) :
    (d.readHead head code major minor).map forget
      = (init.readHead head code major minor).map forget := by
  unfold readHead
  split
  · rw [fields_forget, h.requestLine, ← fields_forget]
  · rfl

end Rslinker.Internal
