import Rslinker.Client.HttpChannel

set_option autoImplicit false

/-! # When the HTTP channel panics

The loop unwraps the result of `from_utf8` on what it has read from the remote peer, once for its
log line and once in every callback, and it unwraps the method and the URL when the version is
known. The second kind never fails, because llhttp reports the parts of the request line in order.
The first kind fails on input that is not UTF-8: on the whole of a read when the log line is
evaluated, otherwise on the value of a header.

The reads of a connection are arbitrary bytes, so a peer that sends one byte which is not UTF-8
stops the task. Where the log line is not evaluated the names of headers and the parts of the
request line are safe, as llhttp accepts only ASCII in them.
-/

namespace Rslinker

/-! ## What is known of llhttp

Three facts, which are all that the theorems of this module need: the parts of the request line and
the names of headers are ASCII, values of headers are cut out of the input next to ASCII bytes, and
the version is complete after the method and the URL. They are assumptions here and proved of the
parser of the repository in `Llhttp/Documented.lean`. -/

/-- What llhttp may have called back when it is in some state. -/
inductive Llhttp.Reported (L : Llhttp) : L.State → List Callback → Prop
  | init : Reported L L.init []
  | execute {s : L.State} {cbs : List Callback} (bytes : Bytes) (h : Reported L s cbs) :
      Reported L (L.execute s bytes).1 (cbs ++ (L.execute s bytes).2.1)

/-- The spans that llhttp's tables restrict to ASCII characters. -/
def Callback.asciiSpan : Callback → Option Bytes
  | .url span | .method span | .version span | .headerField span => some span
  | _ => none

/-- How llhttp reports a request. -/
structure Llhttp.Documented (L : Llhttp) : Prop where
  /-- Method, URL, version and the names of headers consist of ASCII characters. -/
  ascii : ∀ s bytes, ∀ cb ∈ (L.execute s bytes).2.1, ∀ span ∈ cb.asciiSpan,
    ∀ b ∈ span, Utf8.isAscii b
  /-- The span of a header's value is a piece of the input that begins and ends at an end of the
  input or next to an ASCII character. -/
  value : ∀ s bytes span, .headerValue span ∈ (L.execute s bytes).2.1 →
    ∃ before after, bytes = before ++ (span ++ after) ∧ Utf8.CleanCut before (span ++ after) ∧
      Utf8.CleanCut span after
  /-- The version is reported after the method and the URL. -/
  order : ∀ s cbs, L.Reported s cbs → .versionComplete ∈ cbs →
    .methodComplete ∈ cbs ∧ .urlComplete ∈ cbs

/-! ## The callbacks

A callback gets a span of bytes and makes a `String` of it, which it unwraps. Bytes of the body are
not decoded. The spans of one field may be several, one for each read, and each is decoded by
itself. -/

/-- The span that a callback decodes. -/
def Callback.text : Callback → Option Bytes
  | .url span | .method span | .version span | .headerField span | .headerValue span => some span
  | _ => none

namespace RequestParser

variable {L : Llhttp}

theorem onCallback_eq_none_iff {p : RequestParser L} {cb : Callback} :
    p.onCallback cb = none ↔ ∃ span ∈ cb.text, ¬ Utf8.valid span := by
  cases cb <;> simp [onCallback, Callback.text, fromUtf8]

/-- The callbacks panic exactly when one of them gets a span that is not UTF-8. -/
theorem onCallbacks_eq_none_iff {p : RequestParser L} {cbs : List Callback} :
    p.onCallbacks cbs = none ↔ ∃ cb ∈ cbs, ∃ span ∈ cb.text, ¬ Utf8.valid span := by
  induction cbs generalizing p with
  | nil => simp [onCallbacks]
  | cons cb cbs ih =>
      rcases hcb : p.onCallback cb with _ | q
      · have hbad := onCallback_eq_none_iff.mp hcb
        simp only [onCallbacks, hcb, Option.bind_none, true_iff]
        exact ⟨cb, by simp, hbad⟩
      · have hgood : ¬ ∃ span ∈ cb.text, ¬ Utf8.valid span := by
          rw [← onCallback_eq_none_iff (p := p), hcb]
          simp
        simp only [onCallbacks, hcb, Option.bind_some, ih, List.exists_mem_cons_iff, hgood, false_or]

/-- The parser has what llhttp has reported of the request line. -/
structure Follows (p : RequestParser L) (cbs : List Callback) : Prop where
  method : p.method.isSome ↔ .methodComplete ∈ cbs
  url : p.url.isSome ↔ .urlComplete ∈ cbs
  version : p.version.isSome ↔ .versionComplete ∈ cbs

theorem Follows.onCallback {p q : RequestParser L} {cbs : List Callback} {cb : Callback}
    (h : p.Follows cbs) (hcb : p.onCallback cb = some q) :
    q.Follows (cbs ++ [cb]) ∧ q.parser = p.parser := by
  obtain ⟨hmethod, hurl, hversion⟩ := h
  cases cb with
  | methodComplete | urlComplete | versionComplete | headerValueComplete | headersComplete | body =>
      cases hcb
      exact ⟨⟨by simp [hmethod], by simp [hurl], by simp [hversion]⟩, rfl⟩
  | url | method | version | headerField | headerValue =>
      obtain ⟨s, -, rfl⟩ := Option.map_eq_some_iff.mp hcb
      exact ⟨⟨by simp [hmethod], by simp [hurl], by simp [hversion]⟩, rfl⟩

theorem Follows.onCallbacks {p q : RequestParser L} {done cbs : List Callback}
    (h : p.Follows done) (hcbs : p.onCallbacks cbs = some q) :
    q.Follows (done ++ cbs) ∧ q.parser = p.parser := by
  induction cbs generalizing p done with
  | nil =>
      cases hcbs
      exact ⟨by simpa using h, rfl⟩
  | cons cb cbs ih =>
      obtain ⟨r, hr, hq⟩ := Option.bind_eq_some_iff.mp hcbs
      obtain ⟨hr', hparser⟩ := h.onCallback hr
      obtain ⟨hq', hparser'⟩ := ih hr' hq
      exact ⟨by simpa using hq', hparser'.trans hparser⟩

end RequestParser

/-- When the values of headers are UTF-8, so are all spans that the callbacks decode. -/
theorem Llhttp.Documented.text_valid {L : Llhttp} (hL : L.Documented) {s : L.State} {bytes : Bytes}
    (hvalue : ∀ span, .headerValue span ∈ (L.execute s bytes).2.1 → Utf8.valid span) :
    ∀ cb ∈ (L.execute s bytes).2.1, ∀ span ∈ cb.text, Utf8.valid span := by
  intro cb hcb span hspan
  cases cb with
  | url _ | method _ | version _ | headerField _ =>
      cases hspan
      exact Utf8.valid_of_ascii (hL.ascii s bytes _ hcb span rfl)
  | headerValue value =>
      cases hspan
      exact hvalue span hcb
  | _ => cases hspan

/-- Input that is UTF-8 has values of headers that are. -/
theorem Llhttp.Documented.value_valid {L : Llhttp} (hL : L.Documented) {s : L.State} {bytes : Bytes}
    (hbytes : Utf8.valid bytes) :
    ∀ span, .headerValue span ∈ (L.execute s bytes).2.1 → Utf8.valid span := by
  intro span hspan
  obtain ⟨before, after, rfl, hbefore, hafter⟩ := hL.value s bytes span hspan
  exact (Utf8.valid_cut (Utf8.valid_cut hbytes hbefore).2 hafter).1

/-! ## The loop

The invariant of the loop relates the parser with what llhttp has reported: where the version is
there, the method and the URL are. So the unwraps of the request line are safe whatever the peer
sends, and only those of `from_utf8` remain. -/

def LoopStep.Safe {L : Llhttp} (P : HttpChannel L → Prop) : LoopStep L → Prop
  | .next c => P c
  | .panicked => False
  | .done _ | .failed _ => True

theorem LoopStep.Safe.bind {L : Llhttp} {P Q : HttpChannel L → Prop} {r : LoopStep L}
    {k : HttpChannel L → LoopStep L} (h : r.Safe P) (hk : ∀ c, P c → (k c).Safe Q) :
    (r.bind k).Safe Q := by
  cases r with
  | next c => exact hk c h
  | done c => trivial
  | failed e => trivial
  | panicked => exact h

namespace HttpChannel

variable {L : Llhttp} {c : HttpChannel L}

/-- The parser of the channel has what llhttp has reported. -/
def Parsed (c : HttpChannel L) : Prop :=
  ∃ cbs, L.Reported c.requestParser.parser cbs ∧ c.requestParser.Follows cbs

/-- What holds whenever the loop starts again. -/
def Waiting (c : HttpChannel L) : Prop := c.remoteBuf = [] ∧ c.Parsed

theorem waiting_new (L : Llhttp) : (new L).Waiting :=
  ⟨rfl, [], .init, by simp [new, RequestParser.new], by simp [new, RequestParser.new],
    by simp [new, RequestParser.new]⟩

theorem writeLocal_safe (h : c.Waiting) (w : WriteBuf) : (c.writeLocal w).Safe Waiting := by
  rcases w with (_ | size) | _
  · trivial
  · exact h
  · trivial

theorem local_safe (h : c.Waiting) (read : ReadBuf) (write : WriteBuf) :
    ((c.readLocal read).bind fun c => c.writeRemote write).Safe Waiting := by
  rcases read with (_ | ⟨b, data⟩) | _
  · trivial
  · rcases write with (_ | size) | _
    · trivial
    · exact h
    · trivial
  · trivial

/-- `parse` goes wrong only on a span that is not UTF-8. -/
theorem parse_safe (h : c.Parsed)
    (hspans : ∀ cb ∈ (L.execute c.requestParser.parser c.remoteBuf).2.1, ∀ span ∈ cb.text,
      Utf8.valid span) : c.parse.Safe Waiting := by
  obtain ⟨cbs, hreported, hfollows⟩ := h
  set state := (L.execute c.requestParser.parser c.remoteBuf).1
  set new := (L.execute c.requestParser.parser c.remoteBuf).2.1 with hnew
  set errno := (L.execute c.requestParser.parser c.remoteBuf).2.2
  set p : RequestParser L := { c.requestParser with parser := state } with hp
  have hexec : c.requestParser.execute c.remoteBuf
      = (p.onCallbacks new).map fun p => (p, errno) := rfl
  rcases hcalls : p.onCallbacks new with _ | q
  · -- a panicking callback would have got a span that is not UTF-8
    obtain ⟨cb, hcb, span, hspan, hbad⟩ := RequestParser.onCallbacks_eq_none_iff.mp hcalls
    exact absurd (hspans cb hcb span hspan) hbad
  · have hfollows' : p.Follows cbs := ⟨hfollows.method, hfollows.url, hfollows.version⟩
    obtain ⟨hq, hparser⟩ := hfollows'.onCallbacks hcalls
    rw [hcalls, Option.map_some] at hexec
    unfold parse
    rw [hexec]
    -- with `HPE_OK` the buffer is cleared, otherwise the loop returns the error
    rcases errno with _ | n
    · refine ⟨rfl, cbs ++ new, ?_, hq⟩
      show L.Reported q.parser _
      rw [hparser]
      exact hreported.execute c.remoteBuf
    · trivial

/-- `parse` panics on a span that is not UTF-8. -/
theorem parse_panics {cb : Callback} {span : Bytes}
    (hcb : cb ∈ (L.execute c.requestParser.parser c.remoteBuf).2.1) (hspan : span ∈ cb.text)
    (hbad : ¬ Utf8.valid span) : c.parse = .panicked := by
  have hcalls := (RequestParser.onCallbacks_eq_none_iff
    (p := { c.requestParser with parser := (L.execute c.requestParser.parser c.remoteBuf).1 })).mpr
    ⟨cb, hcb, span, hspan, hbad⟩
  unfold parse RequestParser.execute
  simp only [hcalls, Option.map_none]

/-- The unwraps of the request line do not fail. -/
theorem sendRequestLine_safe (hL : L.Documented) (h : c.Waiting) (w : WriteBuf) :
    (c.sendRequestLine w).Safe Waiting := by
  obtain ⟨hbuf, cbs, hreported, hfollows⟩ := h
  unfold sendRequestLine
  split
  · rename_i hv
    have hversion : c.requestParser.version.isSome := by
      rw [Bool.and_eq_true] at hv
      exact hv.1
    -- a parser that knows the version has been told the method and the URL
    obtain ⟨hm, hu⟩ := hL.order _ cbs hreported (hfollows.version.mp hversion)
    obtain ⟨method, hmethod⟩ := Option.isSome_iff_exists.mp (hfollows.method.mpr hm)
    obtain ⟨url, hurl⟩ := Option.isSome_iff_exists.mp (hfollows.url.mpr hu)
    obtain ⟨version, hversion⟩ := Option.isSome_iff_exists.mp hversion
    rw [hmethod, hurl, hversion]
    apply writeLocal_safe
    exact ⟨hbuf, cbs, hreported, hfollows⟩
  · exact ⟨hbuf, cbs, hreported, hfollows⟩

theorem sendHeaders_safe {t : HttpSetup} {c : HttpChannel t.llhttp} (h : c.Waiting) (w : WriteBuf) :
    (c.sendHeaders t w).Safe Waiting := by
  obtain ⟨hbuf, cbs, hreported, hmethod, hurl, hversion⟩ := h
  unfold sendHeaders
  simp only
  split
  · exact ⟨hbuf, cbs, hreported, hmethod, hurl, hversion⟩
  · apply writeLocal_safe
    exact ⟨hbuf, cbs, hreported, hmethod, hurl, hversion⟩

theorem finishHeaders_safe (h : c.Waiting) : c.finishHeaders.Safe Waiting := by
  unfold finishHeaders
  split
  · trivial
  · exact h

/-- The bytes of this event can be unwrapped: all of them when the log line is evaluated, otherwise
the values of headers that llhttp finds in them. -/
def Readable (t : HttpSetup) (c : HttpChannel t.llhttp) : HttpEvent → Prop
  | .remote (.ok data) _ _ =>
      data ≠ [] →
        if t.logsInfo then Utf8.valid data
        else ∀ span, .headerValue span ∈ (t.llhttp.execute c.requestParser.parser data).2.1 →
          Utf8.valid span
  | _ => True

/-- **A pass through the loop that gets readable bytes does not panic.** -/
theorem step_safe {t : HttpSetup} (hL : t.llhttp.Documented) {c : HttpChannel t.llhttp}
    (h : c.Waiting) {e : HttpEvent} (he : Readable t c e) : (c.step t e).Safe Waiting := by
  rcases e with ⟨read, write⟩ | ⟨(_ | ⟨b, data⟩) | _, writeLine, writeHeaders⟩
  · exact local_safe h read write
  · trivial
  · have hread := he (by simp)
    set c₁ : HttpChannel t.llhttp := { c with remoteBuf := c.remoteBuf ++ (b :: data) } with hc₁
    -- the buffer was empty, so it holds this read and nothing else
    have hbuf : c₁.remoteBuf = b :: data := by
      rw [hc₁, h.1, List.nil_append]
    have hspans : ∀ cb ∈ (t.llhttp.execute c₁.requestParser.parser c₁.remoteBuf).2.1,
        ∀ span ∈ cb.text, Utf8.valid span := by
      rw [hbuf]
      refine hL.text_valid ?_
      by_cases hlog : t.logsInfo
      · rw [if_pos hlog] at hread
        exact hL.value_valid hread
      · rw [if_neg hlog] at hread
        exact hread
    have hlogged : c₁.logRequest t.logsInfo = .next c₁ := by
      unfold logRequest
      by_cases hlog : t.logsInfo
      · rw [if_pos hlog] at hread ⊢
        simp [fromUtf8, hbuf, hread]
      · rw [if_neg hlog]
    show ((c₁.logRequest t.logsInfo).bind _).Safe Waiting
    rw [hlogged]
    have hparsed : c₁.Parsed := h.2
    exact (parse_safe hparsed hspans).bind fun c hc =>
      (sendRequestLine_safe hL hc writeLine).bind fun c hc =>
      (sendHeaders_safe hc writeHeaders).bind fun c hc => finishHeaders_safe hc
  · trivial

/-- **A pass that gets other bytes panics.** -/
theorem step_panics {t : HttpSetup} {c : HttpChannel t.llhttp} (h : c.Waiting) {e : HttpEvent}
    (he : ¬ Readable t c e) : c.step t e = .panicked := by
  rcases e with ⟨read, write⟩ | ⟨(_ | ⟨b, data⟩) | _, writeLine, writeHeaders⟩
  · exact absurd trivial he
  · exact absurd (fun h => absurd rfl h) he
  · set c₁ : HttpChannel t.llhttp := { c with remoteBuf := c.remoteBuf ++ (b :: data) } with hc₁
    have hbuf : c₁.remoteBuf = b :: data := by
      rw [hc₁, h.1, List.nil_append]
    show (c₁.logRequest t.logsInfo).bind _ = .panicked
    have hnot := (Classical.not_imp.mp he).2
    by_cases hlog : t.logsInfo
    · -- the log line
      rw [if_pos hlog] at hnot
      have hpanic : c₁.logRequest t.logsInfo = .panicked := by
        simp [logRequest, hlog, fromUtf8, hbuf, hnot]
      rw [hpanic]
      rfl
    · -- the callback for the value of a header
      rw [if_neg hlog] at hnot
      obtain ⟨span, hnot⟩ := not_forall.mp hnot
      obtain ⟨hspan, hbad⟩ := Classical.not_imp.mp hnot
      have hlogged : c₁.logRequest t.logsInfo = .next c₁ := by
        simp [logRequest, hlog]
      have hparse : c₁.parse = .panicked := by
        rw [← hbuf] at hspan
        exact parse_panics hspan rfl hbad
      rw [hlogged]
      show c₁.parse.bind _ = .panicked
      rw [hparse]
      rfl
  · exact absurd trivial he

theorem loop_panicked_iff {t : HttpSetup} (hL : t.llhttp.Documented) {c : HttpChannel t.llhttp}
    (h : c.Waiting) (events : List HttpEvent) :
    loop t c events ≠ .panicked ↔ StepsMeet (advance t) (Readable t) c events := by
  induction events generalizing c with
  | nil => simp [loop, StepsMeet]
  | cons e es ih =>
      by_cases he : Readable t c e
      · have hsafe := step_safe hL h he
        simp only [loop, StepsMeet, advance]
        rcases hs : c.step t e with c' | c' | err | _
        · rw [hs] at hsafe
          simpa [LoopStep.bind, he] using ih hsafe
        · simp [LoopStep.bind, he]
        · simp [LoopStep.bind, he]
        · rw [hs] at hsafe
          exact hsafe.elim
      · simp [loop, StepsMeet, step_panics h he, LoopStep.bind, he]

/-- **When a remote peer crashes the client.** Over every sequence of what the sockets of an HTTP
channel return: the loop does not panic exactly when every read of the remote socket that it handles
is readable. -/
theorem http_not_panicked_iff {t : HttpSetup} (hL : t.llhttp.Documented) (events : List HttpEvent) :
    loop t (new t.llhttp) events ≠ .panicked ↔
      StepsMeet (advance t) (Readable t) (new t.llhttp) events :=
  loop_panicked_iff hL (waiting_new t.llhttp) events

/-! ## Two requests

llhttp is given by what it reports on one input. In both requests a header has a byte that is not
ASCII; in the first one it is no UTF-8. -/

/-- llhttp on its first input, when that is `input`: it reports `cbs`. -/
def scripted (input : Bytes) (cbs : List Callback) : Llhttp where
  State := Bool
  init := false
  execute seen bytes := (true, if !seen && bytes = input then cbs else [], 0)
  reset _ := false

theorem scripted_reported {input : Bytes} {cbs total : List Callback}
    {seen : (scripted input cbs).State} (h : (scripted input cbs).Reported seen total) :
    total = [] ∨ seen = (true : Bool) ∧ total = cbs := by
  induction h with
  | init => exact Or.inl rfl
  | execute bytes _ ih =>
      rcases ih with rfl | ⟨rfl, rfl⟩
      · simp only [scripted, List.nil_append]
        split
        · exact Or.inr ⟨trivial, rfl⟩
        · exact Or.inl rfl
      · exact Or.inr ⟨rfl, by simp [scripted]⟩

theorem scripted_documented {input : Bytes} {cbs : List Callback}
    (hascii : ∀ cb ∈ cbs, ∀ span ∈ cb.asciiSpan, ∀ b ∈ span, Utf8.isAscii b)
    (hvalue : ∀ span, .headerValue span ∈ cbs → ∃ before after,
      input = before ++ (span ++ after) ∧ Utf8.CleanCut before (span ++ after) ∧
        Utf8.CleanCut span after)
    (horder : .methodComplete ∈ cbs ∧ .urlComplete ∈ cbs) : (scripted input cbs).Documented := by
  have hreports : ∀ (seen : Bool) (bytes : Bytes) cb,
      cb ∈ ((scripted input cbs).execute seen bytes).2.1 → cb ∈ cbs ∧ bytes = input := by
    intro seen bytes cb hcb
    simp only [scripted] at hcb
    split at hcb
    · rename_i hin
      rw [Bool.and_eq_true, decide_eq_true_eq] at hin
      exact ⟨hcb, hin.2⟩
    · simp at hcb
  refine ⟨?_, ?_, ?_⟩
  · intro seen bytes cb hcb
    exact hascii cb (hreports seen bytes cb hcb).1
  · intro seen bytes span hspan
    obtain ⟨hmem, rfl⟩ := hreports seen bytes _ hspan
    exact hvalue span hmem
  · intro seen total hreported hversion
    rcases scripted_reported hreported with rfl | ⟨-, rfl⟩
    · simp at hversion
    · exact horder

/-- What llhttp reports of `GET / HTTP/1.1` with one header `X`. -/
def getWithHeader (value : Bytes) : List Callback :=
  [.method [71, 69, 84], .methodComplete, .url [47], .urlComplete, .version [49, 46, 49],
    .versionComplete, .headerField [88], .headerValue value, .headerValueComplete, .headersComplete]

/-- The request on the wire: up to the value of the header, and with the blank line behind it. -/
def getBytes (value : Bytes) : Bytes :=
  [71, 69, 84, 32, 47, 32, 72, 84, 84, 80, 47, 49, 46, 49, 13, 10, 88, 58, 32]
    ++ (value ++ [13, 10, 13, 10])

theorem get_documented (value : Bytes) :
    (scripted (getBytes value) (getWithHeader value)).Documented := by
  refine scripted_documented ?_ ?_ (by simp [getWithHeader])
  · simp [getWithHeader, Callback.asciiSpan, Utf8.isAscii]
  · intro span hspan
    have hvalue : span = value := by simpa [getWithHeader] using hspan
    subst hvalue
    exact ⟨_, _, rfl, Or.inr (Or.inr (Or.inl ⟨32, by decide, by decide⟩)),
      Or.inr (Or.inr (Or.inr ⟨13, by decide, by decide⟩))⟩

/-- The channel of a link without overrides, in front of a peer that sends this request. -/
def plain (value : Bytes) (logsInfo : Bool) : HttpSetup :=
  ⟨scripted (getBytes value) (getWithHeader value), false, [], [], id, logsInfo⟩

/-- The byte 255 in the value of a header, which llhttp accepts, makes the channel panic: in the log
line, and without the log line in the callback. -/
theorem not_http_not_panicked_latin1 :
    (¬ ∀ (t : HttpSetup) (events : List HttpEvent), t.logsInfo = true → t.llhttp.Documented →
        loop t (new t.llhttp) events ≠ .panicked) ∧
      ¬ ∀ (t : HttpSetup) (events : List HttpEvent), t.logsInfo = false → t.llhttp.Documented →
        loop t (new t.llhttp) events ≠ .panicked := by
  constructor
  · intro hall
    exact hall (plain [255] true) [.remote (.ok (getBytes [255])) (.ok 64) (.ok 64)] rfl
      (get_documented [255]) rfl
  · intro hall
    exact hall (plain [255] false) [.remote (.ok (getBytes [255])) (.ok 64) (.ok 64)] rfl
      (get_documented [255]) rfl

/-- The rule at a request in UTF-8, with the log line. -/
theorem http_not_panicked_utf8 :
    loop (plain [195, 169] true) (new _) [.remote (.ok (getBytes [195, 169])) (.ok 64) (.ok 64)]
      ≠ .panicked := by
  refine (http_not_panicked_iff (get_documented [195, 169]) _).mpr ⟨fun _ => ?_, fun _ _ => trivial⟩
  show Utf8.valid (getBytes [195, 169])
  decide

end HttpChannel

end Rslinker
