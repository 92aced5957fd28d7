import Rslinker.Llhttp.Headers

set_option autoImplicit false

/-! # What llhttp reports of a request's head

The head of a request reaches the callbacks in fragments: a name, a value or a part of the request
line is a list of spans, cut wherever a read ends. `Tally` counts up callbacks without a hash map and
without regard to reads, so that a report in whatever fragments has the same tally; the parser of the
program has, besides, what `take_headers` has left in its map (`RequestParser.Tallies`).

`Head.Spelled head cbs` says that the callbacks `cbs` are a report of `head`: they add up to it, and
wherever they are cut the request line comes before the fields. `Llhttp.Parses` says that some reads
bring such a report, the end of it with the last of them.
-/

namespace Rslinker

/-! ## The tally

What has come so far of the part that is being reported, and what is complete. It is what
`RequestParser` has, but for the map of headers: here all fields are kept, in the order in which
their values have been completed. -/

/-- What callbacks have reported so far. -/
structure Tally where
  method : Option Bytes
  url : Option Bytes
  version : Option Bytes
  methodBuf : Bytes
  urlBuf : Bytes
  versionBuf : Bytes
  nameBuf : Bytes
  valueBuf : Bytes
  fields : List (Bytes × Bytes)
  complete : Bool
  body : Bytes

namespace Tally

def empty : Tally := ⟨none, none, none, [], [], [], [], [], [], false, []⟩

def add (s : Tally) : Callback → Tally
  | .url span => { s with urlBuf := s.urlBuf ++ span }
  | .method span => { s with methodBuf := s.methodBuf ++ span }
  | .version span => { s with versionBuf := s.versionBuf ++ span }
  | .headerField span => { s with nameBuf := s.nameBuf ++ span }
  | .headerValue span => { s with valueBuf := s.valueBuf ++ span }
  | .body span => { s with body := s.body ++ span }
  | .urlComplete => { s with url := some s.urlBuf, urlBuf := [] }
  | .methodComplete => { s with method := some s.methodBuf, methodBuf := [] }
  | .versionComplete => { s with version := some s.versionBuf, versionBuf := [] }
  | .headerValueComplete =>
      { s with fields := s.fields ++ [(s.nameBuf, s.valueBuf)], nameBuf := [], valueBuf := [] }
  | .headersComplete => { s with complete := true }

def addAll (s : Tally) (cbs : List Callback) : Tally := cbs.foldl add s

@[simp] theorem addAll_nil (s : Tally) : s.addAll [] = s := rfl

@[simp] theorem addAll_cons (s : Tally) (cb : Callback) (cbs : List Callback) :
    s.addAll (cb :: cbs) = (s.add cb).addAll cbs := rfl

theorem addAll_append (s : Tally) (cbs cbs' : List Callback) :
    s.addAll (cbs ++ cbs') = (s.addAll cbs).addAll cbs' := List.foldl_append

end Tally

def bodyData (cbs : List Callback) : Bytes :=
  cbs.flatMap fun cb => match cb with
    | .body span => span
    | _ => []

namespace Tally

variable {s : Tally} {cbs : List Callback}

theorem complete_addAll : (s.addAll cbs).complete ↔ s.complete ∨ .headersComplete ∈ cbs := by
  induction cbs generalizing s with
  | nil => simp
  | cons cb cbs ih =>
      rw [addAll_cons, ih]
      cases cb <;> simp [add]

theorem version_addAll :
    (s.addAll cbs).version.isSome ↔ s.version.isSome ∨ .versionComplete ∈ cbs := by
  induction cbs generalizing s with
  | nil => simp
  | cons cb cbs ih =>
      rw [addAll_cons, ih]
      cases cb <;> simp [add]

theorem body_addAll : (s.addAll cbs).body = s.body ++ bodyData cbs := by
  induction cbs generalizing s with
  | nil => simp [bodyData]
  | cons cb cbs ih =>
      rw [addAll_cons, ih]
      cases cb <;> simp [add, bodyData]

/-- One more field for every completed value. -/
theorem fields_addAll (s : Tally) (cbs : List Callback) :
    ∃ more, (s.addAll cbs).fields = s.fields ++ more ∧
      more.length = cbs.count .headerValueComplete := by
  induction cbs generalizing s with
  | nil => exact ⟨[], by simp⟩
  | cons cb cbs ih =>
      obtain ⟨more, hmore, hlength⟩ := ih (s.add cb)
      cases cb with
      | headerValueComplete =>
          refine ⟨(s.nameBuf, s.valueBuf) :: more, ?_, by simp [hlength]⟩
          rw [addAll_cons, hmore]
          simp [add]
      | _ => exact ⟨more, hmore, by simp [hlength]⟩

theorem method_addAll :
    (s.addAll cbs).method.isSome ↔ s.method.isSome ∨ .methodComplete ∈ cbs := by
  induction cbs generalizing s with
  | nil => simp
  | cons cb cbs ih =>
      rw [addAll_cons, ih]
      cases cb <;> simp [add]

theorem url_addAll : (s.addAll cbs).url.isSome ↔ s.url.isSome ∨ .urlComplete ∈ cbs := by
  induction cbs generalizing s with
  | nil => simp
  | cons cb cbs ih =>
      rw [addAll_cons, ih]
      cases cb <;> simp [add]

/-- Once its parts are complete, the request line stays unless a part is completed again. -/
theorem line_addAll (hmethod : .methodComplete ∉ cbs) (hurl : .urlComplete ∉ cbs)
    (hversion : .versionComplete ∉ cbs) :
    (s.addAll cbs).method = s.method ∧ (s.addAll cbs).url = s.url ∧
      (s.addAll cbs).version = s.version := by
  induction cbs generalizing s with
  | nil => exact ⟨rfl, rfl, rfl⟩
  | cons cb cbs ih =>
      simp only [List.mem_cons, not_or] at hmethod hurl hversion
      rw [addAll_cons]
      obtain ⟨hm, hu, hv⟩ := ih (s := s.add cb) hmethod.2 hurl.2 hversion.2
      rw [hm, hu, hv]
      cases cb <;> simp_all [add]

end Tally

/-! ## Reports

A report of a head is any list of callbacks that adds up to it. Of the order it matters that a cut
never falls between the parts of the request line and a field or the end of the headers: what comes
in front of a cut has none of these, or the request line is complete there. -/

structure Head where
  method : Bytes
  url : Bytes
  version : Bytes
  fields : List (Bytes × Bytes)
  deriving DecidableEq, Repr

structure Head.Spelled (head : Head) (report : List Callback) : Prop where
  tally : Tally.empty.addAll report =
    ⟨some head.method, some head.url, some head.version, [], [], [], [], [], head.fields, true, []⟩
  cut : ∀ done rest, report = done ++ rest →
    (.versionComplete ∉ done ∧ .headerValueComplete ∉ done ∧ .headersComplete ∉ done) ∨
      (.methodComplete ∉ rest ∧ .urlComplete ∉ rest ∧ .versionComplete ∉ rest)

/-- The report of a head that comes in one read. -/
def Head.callbacks (head : Head) : List Callback :=
  [.method head.method, .methodComplete, .url head.url, .urlComplete, .version head.version,
      .versionComplete]
    ++ (head.fields.flatMap fun e => [.headerField e.1, .headerValue e.2, .headerValueComplete])
    ++ [.headersComplete]

/-- The head on the wire. -/
def Head.bytes (head : Head) : Bytes :=
  head.method ++ [32] ++ head.url ++ [32, 72, 84, 84, 80, 47] ++ head.version ++ [13, 10]
    ++ (head.fields.flatMap fun e => e.1 ++ [58, 32] ++ e.2 ++ [13, 10]) ++ [13, 10]

/-- What llhttp calls back for one read after the other, up to the first one for which it returns an
error, and the number of this error. -/
def Llhttp.parse (L : Llhttp) : L.State → List Bytes → List (List Callback) × Nat
  | _, [] => ([], 0)
  | s, data :: reads =>
      match L.execute s data with
      | (s', cbs, 0) => (cbs :: (L.parse s' reads).1, (L.parse s' reads).2)
      | (_, cbs, errno) => ([cbs], errno)

/-- llhttp parses these reads up to the end of the head, which it reports in the last one; `after` is
what it reports of the bytes behind the head. It may return an error then, as it does for a head that
asks for an upgrade. -/
structure Llhttp.Parses (L : Llhttp) (reads : List Bytes) (head : Head)
    (reports : List (List Callback)) (after : List Callback) (errno : Nat) : Prop where
  parse : L.parse L.init reads = (reports, errno)
  spelled : ∃ report, head.Spelled report ∧ reports.flatten = report ++ after
  last : .headersComplete ∉ reports.dropLast.flatten

namespace Llhttp

variable {L : Llhttp} {s s' : L.State} {data : Bytes} {cbs : List Callback} {errno : Nat}

theorem parse_cons_ok (h : L.execute s data = (s', cbs, 0)) (reads : List Bytes) :
    L.parse s (data :: reads) = (cbs :: (L.parse s' reads).1, (L.parse s' reads).2) := by
  simp [parse, h]

theorem parse_cons_error (h : L.execute s data = (s', cbs, errno + 1)) (reads : List Bytes) :
    L.parse s (data :: reads) = ([cbs], errno + 1) := by
  simp [parse, h]

theorem parse_nil {reads : List Bytes} (h : (L.parse s reads).1 = []) :
    (L.parse s reads).2 = 0 := by
  cases reads with
  | nil => rfl
  | cons data reads =>
      rcases hexec : L.execute s data with ⟨s', cbs, _ | errno⟩
      · simp [parse_cons_ok hexec] at h
      · simp [parse_cons_error hexec] at h

/-- One more read behind reads without an error. -/
theorem parse_concat {reads : List Bytes} (h : (L.parse s reads).2 = 0) (data : Bytes) :
    ∃ s', L.parse s (reads ++ [data])
      = ((L.parse s reads).1 ++ [(L.execute s' data).2.1], (L.execute s' data).2.2) := by
  induction reads generalizing s with
  | nil =>
      refine ⟨s, ?_⟩
      rcases hexec : L.execute s data with ⟨s', cbs, _ | errno⟩
      · simp [parse_cons_ok hexec, parse]
      · simp [parse_cons_error hexec, parse]
  | cons first reads ih =>
      rcases hexec : L.execute s first with ⟨s₁, cbs, _ | errno⟩
      · rw [parse_cons_ok hexec] at h
        obtain ⟨s', hs'⟩ := ih h
        exact ⟨s', by rw [List.cons_append, parse_cons_ok hexec, hs', parse_cons_ok hexec]; rfl⟩
      · rw [parse_cons_error hexec] at h
        cases h

end Llhttp

/-! ## A part of the report

The reads before the last one bring the beginning of a report. What has been completed in it is
complete for good: later callbacks of the same head do not touch it. -/

/-- What is known when a part of a head has been reported. -/
structure Head.Progress (head : Head) (s : Tally) (ended : Nat) : Prop where
  length : s.fields.length = ended
  fields : s.fields = head.fields.take ended
  line : s.version = none ∧ s.fields = [] ∨
    s.method = some head.method ∧ s.url = some head.url ∧ s.version = some head.version

theorem Head.Spelled.progress {head : Head} {done rest : List Callback}
    (h : head.Spelled (done ++ rest)) :
    head.Progress (Tally.empty.addAll done) (done.count .headerValueComplete) := by
  have htotal := h.tally
  rw [Tally.addAll_append] at htotal
  -- the fields of the part are the first ones of the whole, and their number has been counted
  obtain ⟨fields, hfields, hlength⟩ := Tally.fields_addAll .empty done
  rw [show Tally.empty.fields = [] from rfl, List.nil_append] at hfields
  obtain ⟨more, hmore, -⟩ := Tally.fields_addAll (Tally.empty.addAll done) rest
  have hhead : head.fields = fields ++ more := by
    rw [← hfields, ← hmore, htotal]
  refine ⟨?_, ?_, ?_⟩
  · rw [hfields, hlength]
  · rw [hfields, hhead, ← hlength, List.take_left]
  · rcases h.cut done rest rfl with ⟨hversion, hvalue, -⟩ | ⟨hm, hu, hv⟩
    · left
      have hnone : ¬ (Tally.empty.addAll done).version.isSome := by
        rw [Tally.version_addAll]
        simpa [Tally.empty] using hversion
      refine ⟨Option.not_isSome_iff_eq_none.mp hnone, ?_⟩
      rw [hfields, ← List.length_eq_zero_iff, hlength]
      exact List.count_eq_zero.mpr hvalue
    · right
      obtain ⟨hmethod, hurl, hversion⟩ := Tally.line_addAll (s := Tally.empty.addAll done) hm hu hv
      rw [← hmethod, ← hurl, ← hversion, htotal]
      exact ⟨rfl, rfl, rfl⟩

theorem Head.Spelled.complete_mem {head : Head} {report : List Callback} (h : head.Spelled report) :
    .headersComplete ∈ report := by
  have hcomplete : (Tally.empty.addAll report).complete := by rw [h.tally]
  exact (Tally.complete_addAll.mp hcomplete).resolve_left Bool.false_ne_true

/-- All parts of the request line are reported. -/
theorem Head.Spelled.line_mem {head : Head} {report : List Callback} (h : head.Spelled report) :
    .methodComplete ∈ report ∧ .urlComplete ∈ report ∧ .versionComplete ∈ report := by
  have hmethod : (Tally.empty.addAll report).method.isSome := by rw [h.tally]; rfl
  have hurl : (Tally.empty.addAll report).url.isSome := by rw [h.tally]; rfl
  have hversion : (Tally.empty.addAll report).version.isSome := by rw [h.tally]; rfl
  exact ⟨(Tally.method_addAll.mp hmethod).resolve_left Bool.false_ne_true,
    (Tally.url_addAll.mp hurl).resolve_left Bool.false_ne_true,
    (Tally.version_addAll.mp hversion).resolve_left Bool.false_ne_true⟩

/-- There is one completed value for every field. -/
theorem Head.Spelled.count {head : Head} {report : List Callback} (h : head.Spelled report) :
    report.count .headerValueComplete = head.fields.length := by
  obtain ⟨fields, hfields, hlength⟩ := Tally.fields_addAll .empty report
  rw [h.tally] at hfields
  have hhead : head.fields = fields := hfields
  rw [← hlength, hhead]

/-- Callbacks in which the headers are not completed are the beginning of the report. -/
theorem Head.Spelled.begins {head : Head} {report done more after : List Callback}
    (h : head.Spelled report) (heq : done ++ more = report ++ after)
    (hnot : .headersComplete ∉ done) : ∃ rest, report = done ++ rest := by
  rcases List.append_eq_append_iff.mp heq with ⟨rest, hreport, -⟩ | ⟨rest, hdone, -⟩
  · exact ⟨rest, hreport⟩
  · rw [hdone] at hnot
    exact absurd (List.mem_append_left _ h.complete_mem) hnot

/-! ## Batches of fields

The map of headers is drained once per read, so the fields go into it in batches, one for each read.
A read may complete more than the head: trailers of a chunked body and the fields of a further request
belong to the same batch as the last fields of the head. -/

/-- The fields whose values are completed in one read after the other. -/
def batches : List (Bytes × Bytes) → List (List Callback) → List (List (Bytes × Bytes))
  | _, [] => []
  | fields, cbs :: reports =>
      fields.take (cbs.count .headerValueComplete) ::
        batches (fields.drop (cbs.count .headerValueComplete)) reports

/-- The fields of the head that are completed in the last read. -/
def lateFields (head : Head) (reports : List (List Callback)) : List (Bytes × Bytes) :=
  head.fields.drop (reports.dropLast.flatten.count .headerValueComplete)

/-- The fields that are completed behind the head. -/
def fieldsBehind (head : Head) (reports : List (List Callback)) : List (Bytes × Bytes) :=
  (Tally.empty.addAll reports.flatten).fields.drop head.fields.length

theorem batches_concat (fields : List (Bytes × Bytes)) (reports : List (List Callback))
    (cbs : List Callback) :
    batches fields (reports ++ [cbs]) = batches fields reports ++
      [(fields.drop (reports.flatten.count .headerValueComplete)).take
        (cbs.count .headerValueComplete)] := by
  induction reports generalizing fields with
  | nil => simp [batches]
  | cons first reports ih =>
      rw [List.cons_append, batches, ih, List.drop_drop, List.flatten_cons, List.count_append]
      rfl

/-- Fields behind those that the reads complete do not count. -/
theorem batches_append {fields : List (Bytes × Bytes)} {reports : List (List Callback)}
    (h : reports.flatten.count .headerValueComplete ≤ fields.length) (more : List (Bytes × Bytes)) :
    batches (fields ++ more) reports = batches fields reports := by
  induction reports generalizing fields with
  | nil => rfl
  | cons cbs reports ih =>
      rw [List.flatten_cons, List.count_append] at h
      rw [batches, batches, List.take_append_of_le_length (by omega),
        List.drop_append_of_le_length (by omega), ih (by rw [List.length_drop]; omega)]

theorem flatten_batches {fields : List (Bytes × Bytes)} {reports : List (List Callback)}
    (h : reports.flatten.count .headerValueComplete ≤ fields.length) :
    (batches fields reports).flatten
      = fields.take (reports.flatten.count .headerValueComplete) := by
  induction reports generalizing fields with
  | nil => rfl
  | cons cbs reports ih =>
      rw [List.flatten_cons, List.count_append] at h
      rw [batches, List.flatten_cons, ih (by rw [List.length_drop]; omega), List.flatten_cons,
        List.count_append, List.take_add]

namespace Llhttp.Parses

variable {L : Llhttp} {reads : List Bytes} {head : Head} {reports : List (List Callback)}
  {after : List Callback} {errno : Nat}

theorem ne_nil (h : L.Parses reads head reports after errno) : reports ≠ [] := by
  rintro rfl
  obtain ⟨report, hspelled, heq⟩ := h.spelled
  have hmem : .headersComplete ∈ report ++ after := List.mem_append_left _ hspelled.complete_mem
  rw [← heq] at hmem
  cases hmem

/-- The fields that are completed are those of the head and those behind it. -/
theorem fields_eq (h : L.Parses reads head reports after errno) :
    (Tally.empty.addAll reports.flatten).fields = head.fields ++ fieldsBehind head reports ∧
      reports.flatten.count .headerValueComplete
        = head.fields.length + (fieldsBehind head reports).length := by
  obtain ⟨report, hspelled, heq⟩ := h.spelled
  obtain ⟨more, hmore, hlength⟩ := Tally.fields_addAll (Tally.empty.addAll report) after
  rw [← Tally.addAll_append, ← heq, hspelled.tally] at hmore
  have hbehind : fieldsBehind head reports = more := by
    rw [fieldsBehind, hmore, List.drop_left]
  rw [hbehind]
  refine ⟨hmore, ?_⟩
  rw [heq, List.count_append, hspelled.count, hlength]

/-- The reads before the last one complete fields of the head only. -/
theorem count_le (h : L.Parses reads head reports after errno) :
    reports.dropLast.flatten.count .headerValueComplete ≤ head.fields.length := by
  obtain ⟨report, hspelled, heq⟩ := h.spelled
  have hsplit : reports.dropLast.flatten ++ reports.getLast h.ne_nil = report ++ after := by
    rw [← heq]
    conv_rhs => rw [← List.dropLast_concat_getLast h.ne_nil]
    simp
  obtain ⟨rest, hrest⟩ := hspelled.begins hsplit h.last
  have hcount := hspelled.count
  rw [hrest, List.count_append] at hcount
  omega

/-- **The batches of a head**: the last one has the fields behind the head as well. -/
theorem batches_eq (h : L.Parses reads head reports after errno) :
    batches (Tally.empty.addAll reports.flatten).fields reports
        = batches head.fields reports.dropLast
          ++ [lateFields head reports ++ fieldsBehind head reports] ∧
      batches head.fields reports
        = batches head.fields reports.dropLast ++ [lateFields head reports] ∧
      (batches head.fields reports.dropLast).flatten ++ lateFields head reports = head.fields := by
  obtain ⟨hfields, hcount⟩ := h.fields_eq
  have hle := h.count_le
  have hreports := List.dropLast_concat_getLast h.ne_nil
  have hlast : reports.dropLast.flatten.count .headerValueComplete
      + (reports.getLast h.ne_nil).count .headerValueComplete
        = head.fields.length + (fieldsBehind head reports).length := by
    rw [← hcount]
    conv_rhs => rw [← hreports]
    simp
  refine ⟨?_, ?_, ?_⟩
  · rw [hfields]
    generalize fieldsBehind head reports = more at hlast
    conv_lhs => rw [← hreports]
    rw [batches_concat, batches_append hle, List.drop_append_of_le_length hle, lateFields,
      List.take_of_length_le]
    rw [List.length_append, List.length_drop]
    omega
  · conv_lhs => rw [← hreports]
    rw [batches_concat, lateFields, List.take_of_length_le]
    rw [List.length_drop]
    omega
  · rw [flatten_batches hle, lateFields, List.take_append_drop]

end Llhttp.Parses

/-! ## The parser of the program

The parser has what has been counted up, except that `take_headers` has drained its map after every
read. So its map has the fields that have been completed since then. -/

/-- The parser has counted up `s`, and the headers of the first `taken` fields have been taken. -/
structure RequestParser.Tallies {L : Llhttp} (p : RequestParser L) (s : Tally) (taken : Nat) :
    Prop where
  method : p.method = s.method
  url : p.url = s.url
  version : p.version = s.version
  methodBuf : p.methodBuf = s.methodBuf
  urlBuf : p.urlBuf = s.urlBuf
  versionBuf : p.versionBuf = s.versionBuf
  nameBuf : p.headerFieldBuf = s.nameBuf
  valueBuf : p.headerValueBuf = s.valueBuf
  complete : p.isHeaderComplete = s.complete
  body : p.bodyBuf = s.body
  headers : p.headers = collect (s.fields.drop taken)
  taken : taken ≤ s.fields.length

namespace RequestParser

variable {L : Llhttp} {p q : RequestParser L} {s : Tally} {taken : Nat}

theorem tallies_new (L : Llhttp) : (new L).Tallies .empty 0 := by
  constructor <;> rfl

theorem eq_of_fromUtf8 {span text : Bytes} (h : fromUtf8 span = some text) : text = span := by
  obtain ⟨-, h⟩ := Option.ite_none_right_eq_some.mp h
  exact (Option.some.inj h).symm

theorem Tallies.onCallback (h : p.Tallies s taken) {cb : Callback} (hcb : p.onCallback cb = some q) :
    q.Tallies (s.add cb) taken := by
  cases cb with
  | headerValueComplete =>
      cases hcb
      refine { h with nameBuf := rfl, valueBuf := rfl, headers := ?_, taken := ?_ }
      · show p.headers.insert p.headerFieldBuf p.headerValueBuf
          = collect ((s.fields ++ [(s.nameBuf, s.valueBuf)]).drop taken)
        rw [List.drop_append_of_le_length h.taken, collect_concat, h.headers, h.nameBuf, h.valueBuf]
      · have htaken := h.taken
        simp only [Tally.add, List.length_append]
        omega
  | methodComplete =>
      cases hcb
      exact { h with method := congrArg some h.methodBuf, methodBuf := rfl }
  | urlComplete =>
      cases hcb
      exact { h with url := congrArg some h.urlBuf, urlBuf := rfl }
  | versionComplete =>
      cases hcb
      exact { h with version := congrArg some h.versionBuf, versionBuf := rfl }
  | headersComplete =>
      cases hcb
      exact { h with complete := rfl }
  | body span =>
      cases hcb
      exact { h with body := congrArg (· ++ span) h.body }
  | url span =>
      obtain ⟨text, htext, rfl⟩ := Option.map_eq_some_iff.mp hcb
      obtain rfl := eq_of_fromUtf8 htext
      exact { h with urlBuf := congrArg (· ++ text) h.urlBuf }
  | method span =>
      obtain ⟨text, htext, rfl⟩ := Option.map_eq_some_iff.mp hcb
      obtain rfl := eq_of_fromUtf8 htext
      exact { h with methodBuf := congrArg (· ++ text) h.methodBuf }
  | version span =>
      obtain ⟨text, htext, rfl⟩ := Option.map_eq_some_iff.mp hcb
      obtain rfl := eq_of_fromUtf8 htext
      exact { h with versionBuf := congrArg (· ++ text) h.versionBuf }
  | headerField span =>
      obtain ⟨text, htext, rfl⟩ := Option.map_eq_some_iff.mp hcb
      obtain rfl := eq_of_fromUtf8 htext
      exact { h with nameBuf := congrArg (· ++ text) h.nameBuf }
  | headerValue span =>
      obtain ⟨text, htext, rfl⟩ := Option.map_eq_some_iff.mp hcb
      obtain rfl := eq_of_fromUtf8 htext
      exact { h with valueBuf := congrArg (· ++ text) h.valueBuf }

theorem Tallies.onCallbacks (h : p.Tallies s taken) {cbs : List Callback}
    (hcbs : p.onCallbacks cbs = some q) : q.Tallies (s.addAll cbs) taken := by
  induction cbs generalizing p s with
  | nil =>
      cases hcbs
      exact h
  | cons cb cbs ih =>
      obtain ⟨r, hr, hq⟩ := Option.bind_eq_some_iff.mp hcbs
      exact ih (h.onCallback hr) hq

theorem parser_of_onCallbacks {cbs : List Callback} (h : p.onCallbacks cbs = some q) :
    q.parser = p.parser := by
  induction cbs generalizing p with
  | nil =>
      cases h
      rfl
  | cons cb cbs ih =>
      obtain ⟨r, hr, hq⟩ := Option.bind_eq_some_iff.mp h
      rw [ih hq]
      cases cb with
      | headerValueComplete | methodComplete | urlComplete | versionComplete | headersComplete
      | body =>
          cases hr
          rfl
      | url | method | version | headerField | headerValue =>
          obtain ⟨span, -, rfl⟩ := Option.map_eq_some_iff.mp hr
          rfl

theorem complete_of_onCallbacks {cbs : List Callback} (h : p.onCallbacks cbs = some q) :
    q.isHeaderComplete ↔ p.isHeaderComplete ∨ .headersComplete ∈ cbs := by
  induction cbs generalizing p with
  | nil =>
      cases h
      simp
  | cons cb cbs ih =>
      obtain ⟨r, hr, hq⟩ := Option.bind_eq_some_iff.mp h
      rw [ih hq, List.mem_cons]
      cases cb with
      | headersComplete =>
          cases hr
          simp
      | headerValueComplete | methodComplete | urlComplete | versionComplete | body =>
          cases hr
          simp
      | url | method | version | headerField | headerValue =>
          obtain ⟨span, -, rfl⟩ := Option.map_eq_some_iff.mp hr
          simp

/-- What llhttp has done in a call of `execute` that succeeds. -/
theorem execute_eq_some {data : Bytes} (h : p.execute data = some (q, 0)) :
    ∃ cbs, L.execute p.parser data = (q.parser, cbs, 0) ∧
      (q.isHeaderComplete ↔ p.isHeaderComplete ∨ .headersComplete ∈ cbs) := by
  rcases hexec : L.execute p.parser data with ⟨state, cbs, errno⟩
  simp only [execute, hexec] at h
  obtain ⟨r, hr, heq⟩ := Option.map_eq_some_iff.mp h
  cases heq
  have hcomplete := complete_of_onCallbacks hr
  exact ⟨cbs, by rw [parser_of_onCallbacks hr], hcomplete⟩

/-- After `take_headers` all fields have been taken. -/
theorem Tallies.takeHeaders (h : p.Tallies s taken) :
    p.takeHeaders.2.Tallies s s.fields.length :=
  ⟨h.method, h.url, h.version, h.methodBuf, h.urlBuf, h.versionBuf, h.nameBuf, h.valueBuf,
    h.complete, h.body, by simp [RequestParser.takeHeaders, collect], Nat.le_refl _⟩

end RequestParser

end Rslinker
