import Rslinker.Llhttp.Messages

set_option autoImplicit false

/-! # What arrives of a message

The callbacks of `RequestParser` add up bytes, so what llhttp calls back adds up to the same in
whatever pieces the bytes come: of a message, to its parts as they were sent.

Two kinds of results come out of this. For a message that is known, its parts are counted up as
they were sent; and for an input of which nothing is known, no division of it makes a difference.
-/

namespace Rslinker.Internal

open Scan

/-! ## Tallies of events

An event is a single byte of a span or a report, and adding it is adding a callback of one byte. So
the tally of some callbacks is that of their events, in which the pieces do not show any more. -/

def addEvent (s : Tally) : Event Span Report → Tally
  | .byte k b => (callback (.span k [b])).elim s s.add
  | .report r => (callback (.report r)).elim s s.add

def addEvents (s : Tally) (es : List (Event Span Report)) : Tally := es.foldl addEvent s

@[simp] theorem addEvents_nil (s : Tally) : addEvents s [] = s := rfl

@[simp] theorem addEvents_report (s : Tally) (r : Report) (es : List (Event Span Report)) :
    addEvents s (.report r :: es) = addEvents ((callback (.report r)).elim s s.add) es := rfl

theorem addEvents_append (s : Tally) (es fs : List (Event Span Report)) :
    addEvents s (es ++ fs) = addEvents (addEvents s es) fs := List.foldl_append

/-- The bytes of a span add up to the span. -/
theorem addEvents_span (s : Tally) (k : Span) (x : Bytes) :
    addEvents s (eatenAll (some k) x) = (callback (.span k x)).elim s s.add := by
  rw [eatenAll_some]
  induction x generalizing s with
  | nil => cases k <;> simp [callback, Tally.add]
  | cons b x ih =>
      have hstep : addEvents s ((b :: x).map (.byte k))
          = addEvents (addEvent s (.byte k b)) (x.map (.byte k)) := rfl
      rw [hstep, ih]
      cases k <;> simp [callback, addEvent, Tally.add]

/-- **What callbacks add up to** is what their bytes and reports add up to. -/
theorem addAll_filterMap (s : Tally) (calls : List (Call Span Report)) :
    s.addAll (calls.filterMap callback) = addEvents s (callEvents calls) := by
  induction calls generalizing s with
  | nil => rfl
  | cons call calls ih =>
      have hcall : addEvents s call.events = (callback call).elim s s.add := by
        cases call with
        | span k bytes =>
            have hspan := addEvents_span s k bytes
            rwa [eatenAll_some] at hspan
        | report r => rfl
      have hevents : callEvents (call :: calls) = call.events ++ callEvents calls := rfl
      rw [hevents, addEvents_append, hcall, ← ih]
      cases hcb : callback call with
      | none => simp [hcb]
      | some cb => simp [hcb]

/-- What the callbacks of some reads add up to. -/
theorem addAll_parse (s : Tally) (reads : List Bytes) :
    s.addAll (llhttp.parse llhttp.init reads).1.flatten = addEvents s (start.parsed reads) := by
  rw [parse_callbacks, addAll_filterMap, Resting.parsed]

/-! ## Messages

Each part of a message adds itself. The spans of names, values and data are put together again
here, and what is counted up in the end are the parts as they were sent. -/

/-- The data of a body. -/
def Body.data : Body → Bytes
  | .fixed data => data
  | .chunked chunks _ _ => chunks.flatMap Chunk.data

def Body.trailers : Body → List (Bytes × Bytes)
  | .fixed _ => []
  | .chunked _ _ trailers => trailers

theorem addEvents_fields {s : Tally} (hname : s.nameBuf = []) (hvalue : s.valueBuf = [])
    (es : List (Bytes × Bytes)) :
    addEvents s (fieldsEvents es) = { s with fields := s.fields ++ es } := by
  induction es generalizing s with
  | nil => simp [fieldsEvents]
  | cons e es ih =>
      have hsplit : fieldsEvents (e :: es) = fieldEvents e.1 e.2 ++ fieldsEvents es := rfl
      have hfirst : addEvents s (fieldEvents e.1 e.2) = { s with fields := s.fields ++ [e] } := by
        rw [fieldEvents, addEvents_append, addEvents_span, addEvents_report, addEvents_append,
          addEvents_span]
        simp [callback, Tally.add, hname, hvalue]
      have hrest := ih (s := { s with fields := s.fields ++ [e] }) hname hvalue
      rw [hsplit, addEvents_append, hfirst, hrest]
      simp

/-- A head adds its parts. -/
theorem addEvents_head (head : Head) :
    addEvents .empty (headEvents init head) =
      { Tally.empty with
        method := some head.method
        url := some head.url
        version := some head.version
        fields := head.fields } := by
  have hline : addEvents .empty (lineEvents init head) =
      { Tally.empty with
        method := some head.method
        url := some head.url
        version := some head.version } := by
    have hbegin : beginEvents init = [.report .messageBegin] := rfl
    simp only [lineEvents, hbegin, addEvents_append, addEvents_span, addEvents_report,
      addEvents_nil]
    simp [callback, Tally.add, Tally.empty]
  rw [headEvents, addEvents_append, hline, addEvents_fields rfl rfl]
  rfl

theorem addEvents_extension (s : Tally) (e : Bytes × Option Bytes) :
    addEvents s (extensionEvents e) = s := by
  obtain ⟨name, value⟩ := e
  cases value with
  | none =>
      rw [extensionEvents, addEvents_append, addEvents_span]
      rfl
  | some value =>
      rw [extensionEvents, addEvents_append, addEvents_span, addEvents_report, addEvents_append,
        addEvents_span]
      rfl

theorem addEvents_size (s : Tally) (c : Chunk) : addEvents s (sizeEvents c) = s := by
  have hextensions : ∀ es : List (Bytes × Option Bytes),
      addEvents s (es.flatMap extensionEvents) = s := by
    intro es
    induction es with
    | nil => rfl
    | cons e es ih => rw [List.flatMap_cons, addEvents_append, addEvents_extension, ih]
  rw [sizeEvents, addEvents_append, hextensions]
  rfl

theorem addEvents_chunks (s : Tally) (cs : List Chunk) :
    addEvents s (cs.flatMap chunkEvents) = { s with body := s.body ++ cs.flatMap Chunk.data } := by
  induction cs generalizing s with
  | nil => simp
  | cons c cs ih =>
      have hfirst : addEvents s (chunkEvents c) = { s with body := s.body ++ c.data } := by
        rw [chunkEvents, addEvents_append, addEvents_size, addEvents_append, addEvents_span]
        rfl
      rw [List.flatMap_cons, addEvents_append, hfirst, ih]
      simp

/-- A body adds its data, and its trailers to the fields. -/
theorem addEvents_body {s : Tally} (hname : s.nameBuf = []) (hvalue : s.valueBuf = [])
    (body : Body) :
    addEvents s body.events =
      { s with body := s.body ++ body.data, fields := s.fields ++ body.trailers } := by
  cases body with
  | fixed data =>
      show addEvents s (eatenAll (some .body) data) = _
      rw [addEvents_span]
      simp [callback, Tally.add, Body.data, Body.trailers]
  | chunked chunks last trailers =>
      simp only [Body.events, addEvents_append]
      rw [addEvents_chunks, addEvents_size, addEvents_fields]
      · rfl
      · exact hname
      · exact hvalue

/-- What is called back of a message that llhttp reads, and what `llhttp_execute` returns. -/
theorem message_parsed {m : Message} {code major minor : Nat} (hm : IsMessage m code major minor)
    {e : Internal} (hread : readMessage m code major minor = .ok e) {reads : List Bytes}
    (hreads : reads.flatten = m.bytes) :
    (llhttp.parse llhttp.init reads).2 = (if e.ending = .pause then 22 else 0) ∧
      start.parsed reads = messageEvents init m := by
  have hnone : ∀ m ∈ ([] : List Message), KeepsAlive m := by simp
  have hone : reads.flatten = ([] ++ [m]).flatMap Message.bytes := by simpa using hreads
  obtain ⟨hcode, hparsed⟩ := messages_read hnone hm hone
  rw [hread] at hcode
  constructor
  · rw [parse_code]
    exact hcode
  · simpa [messagesEvents] using hparsed e hread

/-- **What a message adds up to**: its request line, its fields with the trailers behind them, and the
data of its body. -/
theorem addEvents_message (m : Message) :
    addEvents .empty (messageEvents init m) =
      ⟨some m.head.method, some m.head.url, some m.head.version, [], [], [], [], [],
        m.head.fields ++ m.body.trailers, true, m.body.data⟩ := by
  rw [messageEvents, addEvents_append, addEvents_head, addEvents_report, addEvents_append,
    addEvents_body rfl rfl]
  rfl

/-! ## Ends of heads

A head ends with its empty line. The report of its end is called back when the last byte of that
line is read, so in no read before and in none behind. -/

theorem report_mem_filterMap {calls : List (Call Span Report)} {r : Report} {cb : Callback}
    (hcb : callback (.report r) = some cb) :
    cb ∈ calls.filterMap callback ↔ .report r ∈ calls := by
  rw [List.mem_filterMap]
  constructor
  · rintro ⟨call, hcall, heq⟩
    have hsame : call = .report r := by
      cases call with
      | span k bytes => cases r <;> cases hcb <;> cases k <;> cases heq
      | report r' => cases r <;> cases hcb <;> cases r' <;> cases heq <;> rfl
    rwa [← hsame]
  · intro hcall
    exact ⟨_, hcall, hcb⟩

theorem report_mem_callEvents {calls : List (Call Span Report)} {r : Report} :
    .report r ∈ callEvents calls ↔ .report r ∈ calls := by
  rw [callEvents, List.mem_flatMap]
  constructor
  · rintro ⟨call, hcall, hevent⟩
    cases call with
    | span k bytes => simp [Call.events] at hevent
    | report r' =>
        obtain rfl : r = r' := by simpa [Call.events] using hevent
        exact hcall
  · intro hcall
    exact ⟨_, hcall, List.mem_cons_self⟩

theorem complete_mem_parse {reads : List Bytes} :
    .headersComplete ∈ (llhttp.parse llhttp.init reads).1.flatten ↔
      .report .headersComplete ∈ start.parsed reads := by
  rw [parse_callbacks, report_mem_filterMap (r := .headersComplete) rfl, Resting.parsed,
    report_mem_callEvents]

theorem complete_not_mem_head (d : Internal) (head : Head) :
    .report .headersComplete ∉ headEvents d head := by
  intro h
  rcases List.mem_append.mp h with h | h
  · revert h
    unfold lineEvents beginEvents
    split <;> simp [eatenAll_some]
  · obtain ⟨e, -, h⟩ := List.mem_flatMap.mp h
    simp [fieldEvents, eatenAll_some] at h

/-- **A head is complete when its last byte has come**, and not before. Of a stream that begins with a
head that llhttp reads, the reads so far have called back its end exactly when they contain all of the
head. There is no error before. -/
theorem head_complete_iff {head : Head} {code major minor : Nat} (h : IsHead head code major minor)
    {d : Internal} (hread : init.readHead head code major minor = .ok d) {reads : List Bytes}
    {v y : Bytes} (hreads : reads.flatten ++ v = head.bytes ++ y) :
    (.headersComplete ∈ (llhttp.parse llhttp.init reads).1.flatten ↔
        head.bytes.length ≤ reads.flatten.length) ∧
      (reads.flatten.length < head.bytes.length → (llhttp.parse llhttp.init reads).2 = 0) := by
  rw [complete_mem_parse, parse_code]
  rcases Nat.lt_or_ge reads.flatten.length head.bytes.length with hlt | hge
  · -- the moves over the head go beyond what has come
    have hout := head_outcome init_fresh h y
    rw [hread, ← hreads] at hout
    obtain ⟨s, hsteps⟩ := hout
    have hlen := congrArg List.length hreads
    rw [List.length_append, List.length_append] at hlen
    obtain ⟨hzero, hfront⟩ := Resting.parse_before start_waits hsteps (by omega)
    refine ⟨⟨fun hmem => ?_, fun hle => absurd hlt (Nat.not_lt.mpr hle)⟩, fun _ => hzero⟩
    exact absurd (hfront.subset hmem) (complete_not_mem_head init head)
  · obtain ⟨y', hy'⟩ : ∃ y', reads.flatten = head.bytes ++ y' := by
      rcases List.append_eq_append_iff.mp hreads with ⟨w, hw, -⟩ | ⟨w, hw, -⟩
      · -- then nothing is left of the head
        have hnil : w = [] := by
          have hlen := congrArg List.length hw
          rw [List.length_append] at hlen
          exact List.length_eq_zero_iff.mp (by omega)
        exact ⟨[], by rw [hw, hnil, List.append_nil, List.append_nil]⟩
      · exact ⟨w, hw⟩
    have hout := head_outcome init_fresh h y'
    rw [hread, ← hy'] at hout
    obtain ⟨s, hsteps⟩ := hout
    have hfront := Resting.parse_behind start_waits (hsteps.trans (headersComplete_steps _ y'))
    refine ⟨⟨fun _ => hge, fun _ => hfront.subset (by simp)⟩, fun hlt => ?_⟩
    exact absurd hlt (Nat.not_lt.mpr hge)

theorem head_complete_iff_last :
    .headersComplete ∈ (llhttp.parse llhttp.init
        [lastMessage.head.bytes.take 9, lastMessage.head.bytes.drop 9]).1.flatten := by
  have hreads : [lastMessage.head.bytes.take 9, lastMessage.head.bytes.drop 9].flatten ++ []
      = lastMessage.head.bytes ++ [] := by simp
  refine (head_complete_iff lastMessage_isHead lastMessage_head hreads).1.mpr ?_
  simp

/-! ## Pieces

The same for any input, whether it is a message or not: if one division of it is read without an
error, then so is any other, and both add up to the same. -/

/-- **What llhttp calls back adds up to the same in whatever pieces.** Two divisions of one input lead
to the same error, and without one to the same request line, the same fields and the same body. -/
theorem collected_congr {reads reads' : List Bytes} (h : reads.flatten = reads'.flatten) :
    (llhttp.parse llhttp.init reads).2 = (llhttp.parse llhttp.init reads').2 ∧
      ((llhttp.parse llhttp.init reads).2 = 0 →
        Tally.empty.addAll (llhttp.parse llhttp.init reads).1.flatten =
          Tally.empty.addAll (llhttp.parse llhttp.init reads').1.flatten) := by
  obtain ⟨hstate, hparsed⟩ := Resting.parse_congr start_waits h
  refine ⟨?_, fun hzero => ?_⟩
  · rw [parse_code, parse_code, hstate]
  · rw [parse_code] at hzero
    rw [addAll_parse, addAll_parse, hparsed hzero]

theorem collected_congr_hi :
    (llhttp.parse llhttp.init [hiMessage.bytes]).2
        = (llhttp.parse llhttp.init [hiMessage.bytes.take 3, hiMessage.bytes.drop 3]).2 ∧
      ((llhttp.parse llhttp.init [hiMessage.bytes]).2 = 0 →
        Tally.empty.addAll (llhttp.parse llhttp.init [hiMessage.bytes]).1.flatten =
          Tally.empty.addAll
            (llhttp.parse llhttp.init [hiMessage.bytes.take 3, hiMessage.bytes.drop 3]).1.flatten) :=
  collected_congr (by simp)

end Rslinker.Internal
