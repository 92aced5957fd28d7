import Rslinker.Llhttp.Documented
import Rslinker.Llhttp.RoundTrip

set_option autoImplicit false

/-! # What the parser has at the end

`RequestParser` decodes every span by itself, so it panics when a read ends inside of a character of
a header's value. A message whose values are ASCII arrives as it has been sent, wherever the reads
end.
-/

namespace Rslinker

namespace RequestParser

variable {L : Llhttp} {p : RequestParser L} {s : Tally} {taken : Nat}

/-- `execute` of one read after the other, up to the first error. -/
def executeAll (p : RequestParser L) : List Bytes → Option (RequestParser L × Nat)
  | [] => some (p, 0)
  | data :: reads =>
      (p.execute data).bind fun r => if r.2 = 0 then r.1.executeAll reads else some r

/-- A call whose spans are UTF-8 adds what llhttp has called back. -/
theorem Tallies.execute (h : p.Tallies s taken) {data : Bytes} {state : L.State}
    {cbs : List Callback} {errno : Nat} (hexec : L.execute p.parser data = (state, cbs, errno))
    (hvalid : ∀ cb ∈ cbs, ∀ span ∈ cb.text, Utf8.valid span) :
    ∃ q, p.execute data = some (q, errno) ∧ q.parser = state ∧ q.Tallies (s.addAll cbs) taken := by
  have hne : ({ p with parser := state } : RequestParser L).onCallbacks cbs ≠ none := by
    rw [Ne, onCallbacks_eq_none_iff]
    rintro ⟨cb, hcb, span, hspan, hinvalid⟩
    exact hinvalid (hvalid cb hcb span hspan)
  obtain ⟨q, hq⟩ := Option.ne_none_iff_exists'.mp hne
  have htallies : ({ p with parser := state } : RequestParser L).Tallies s taken :=
    ⟨h.method, h.url, h.version, h.methodBuf, h.urlBuf, h.versionBuf, h.nameBuf, h.valueBuf,
      h.complete, h.body, h.headers, h.taken⟩
  refine ⟨q, ?_, parser_of_onCallbacks hq, htallies.onCallbacks hq⟩
  simp [RequestParser.execute, hexec, hq]

/-- **Reads whose spans are UTF-8** add what llhttp calls back for all of them. -/
theorem Tallies.executeAll (h : p.Tallies s taken) {reads : List Bytes}
    (hvalid : ∀ cb ∈ (L.parse p.parser reads).1.flatten, ∀ span ∈ cb.text, Utf8.valid span) :
    ∃ q, p.executeAll reads = some (q, (L.parse p.parser reads).2) ∧
      q.Tallies (s.addAll (L.parse p.parser reads).1.flatten) taken := by
  induction reads generalizing p s with
  | nil => exact ⟨p, rfl, h⟩
  | cons data reads ih =>
      rcases hexec : L.execute p.parser data with ⟨state, cbs, _ | errno⟩
      · rw [Llhttp.parse_cons_ok hexec] at hvalid ⊢
        simp only [List.flatten_cons] at hvalid ⊢
        obtain ⟨r, hr, hparser, hfirst⟩ :=
          h.execute hexec fun cb hcb => hvalid cb (List.mem_append_left _ hcb)
        subst hparser
        obtain ⟨q, hq, hrest⟩ := ih hfirst fun cb hcb => hvalid cb (List.mem_append_right _ hcb)
        refine ⟨q, by simp [RequestParser.executeAll, hr, hq], ?_⟩
        rwa [Tally.addAll_append]
      · rw [Llhttp.parse_cons_error hexec] at hvalid ⊢
        simp only [List.flatten_cons, List.flatten_nil, List.append_nil] at hvalid ⊢
        obtain ⟨r, hr, -, hfirst⟩ := h.execute hexec hvalid
        exact ⟨r, by simp [RequestParser.executeAll, hr], hfirst⟩

end RequestParser

namespace Internal

open Scan

/-! ## The values of a message

Only values of fields and of trailers are decoded and can be other than ASCII, so a byte in a span
of a value is one of a value in the message. -/

/-- A callback of some reads is one of a call. -/
theorem mem_parse {L : Llhttp} {s : L.State} {reads : List Bytes} {cb : Callback}
    (h : cb ∈ (L.parse s reads).1.flatten) : ∃ s' bytes, cb ∈ (L.execute s' bytes).2.1 := by
  induction reads generalizing s with
  | nil => cases h
  | cons data reads ih =>
      rcases hexec : L.execute s data with ⟨s', cbs, _ | errno⟩
      · rw [Llhttp.parse_cons_ok hexec] at h
        rcases List.mem_append.mp h with h | h
        · exact ⟨s, data, by rwa [hexec]⟩
        · exact ih h
      · rw [Llhttp.parse_cons_error hexec] at h
        exact ⟨s, data, by rw [hexec]; simpa using h⟩

theorem value_mem_parsed {reads : List Bytes} {span : Bytes}
    (h : .headerValue span ∈ (llhttp.parse llhttp.init reads).1.flatten) {b : UInt8}
    (hb : b ∈ span) : .byte .headerValue b ∈ start.parsed reads := by
  rw [parse_callbacks] at h
  obtain ⟨call, hcall, hcb⟩ := List.mem_filterMap.mp h
  obtain rfl := callback_span (k := .headerValue) hcb rfl
  exact List.mem_flatMap.mpr ⟨_, hcall, List.mem_map_of_mem hb⟩

theorem value_mem_fields {es : List (Bytes × Bytes)} {b : UInt8}
    (h : .byte .headerValue b ∈ fieldsEvents es) : ∃ e ∈ es, b ∈ e.2 := by
  obtain ⟨e, he, hmem⟩ := List.mem_flatMap.mp h
  exact ⟨e, he, by simpa [fieldEvents, eatenAll_some] using hmem⟩

theorem value_not_mem_size (c : Chunk) (b : UInt8) : .byte .headerValue b ∉ sizeEvents c := by
  intro h
  rcases List.mem_append.mp h with h | h
  · obtain ⟨⟨name, value⟩, -, h⟩ := List.mem_flatMap.mp h
    cases value <;> simp [extensionEvents, eatenAll_some] at h
  · simp at h

theorem value_not_mem_chunk (c : Chunk) (b : UInt8) : .byte .headerValue b ∉ chunkEvents c := by
  intro h
  rcases List.mem_append.mp h with h | h
  · exact value_not_mem_size c b h
  · simp [eatenAll_some] at h

theorem value_mem_body {body : Body} {b : UInt8} (h : .byte .headerValue b ∈ body.events) :
    ∃ e ∈ body.trailers, b ∈ e.2 := by
  cases body with
  | fixed data => simp [Body.events, eatenAll_some] at h
  | chunked chunks last trailers =>
      simp only [Body.events, List.mem_append, List.mem_singleton, reduceCtorEq, or_false] at h
      rcases h with h | h | h
      · obtain ⟨c, -, h⟩ := List.mem_flatMap.mp h
        exact absurd h (value_not_mem_chunk c b)
      · exact absurd h (value_not_mem_size last b)
      · exact value_mem_fields h

/-- A byte that is called back in a value is one of a field or of a trailer. -/
theorem value_mem_message {d : Internal} {m : Message} {b : UInt8}
    (h : .byte .headerValue b ∈ messageEvents d m) :
    ∃ e ∈ m.head.fields ++ m.body.trailers, b ∈ e.2 := by
  have hline : .byte .headerValue b ∉ lineEvents d m.head := by
    unfold lineEvents beginEvents
    split <;> simp [eatenAll_some]
  rcases List.mem_append.mp h with h | h
  · obtain ⟨e, he, hb⟩ := value_mem_fields ((List.mem_append.mp h).resolve_left hline)
    exact ⟨e, List.mem_append_left _ he, hb⟩
  · simp only [List.mem_cons, List.mem_append, List.not_mem_nil, reduceCtorEq, false_or,
      or_false] at h
    obtain ⟨e, he, hb⟩ := value_mem_body h
    exact ⟨e, List.mem_append_right _ he, hb⟩

/-! ## Requests

The whole way, from the bytes of a message to what `RequestParser` hands out: llhttp reads the
message, the callbacks add up its parts, and no callback panics. -/

/-- **What is sent is what `RequestParser` has.** Of a message that llhttp reads, with values that are
ASCII, the parser has the request line, the entries of the fields and of the trailers, and the data of
the body. It does not panic, wherever the reads end. -/
theorem request_collected {m : Message} {code major minor : Nat} (hm : IsMessage m code major minor)
    {e : Internal} (hread : readMessage m code major minor = .ok e)
    (hascii : ∀ f ∈ m.head.fields ++ m.body.trailers, ∀ b ∈ f.2, Utf8.isAscii b)
    {reads : List Bytes} (hreads : reads.flatten = m.bytes) :
    ∃ p, (RequestParser.new llhttp).executeAll reads
        = some (p, if e.ending = .pause then 22 else 0) ∧
      p.isHeaderComplete ∧ p.method = some m.head.method ∧ p.url = some m.head.url ∧
      p.version = some m.head.version ∧ p.headers = collect (m.head.fields ++ m.body.trailers) ∧
      p.bodyBuf = m.body.data := by
  obtain ⟨hcode, hparsed⟩ := message_parsed hm hread hreads
  have hvalid : ∀ cb ∈ (llhttp.parse llhttp.init reads).1.flatten, ∀ span ∈ cb.text,
      Utf8.valid span := by
    intro cb hcb span hspan
    apply Utf8.valid_of_ascii
    intro b hb
    obtain ⟨s, bytes, hcall⟩ := mem_parse hcb
    cases cb with
    | headerValue value =>
        cases hspan
        have hbyte := value_mem_parsed hcb hb
        rw [hparsed] at hbyte
        obtain ⟨f, hf, hbf⟩ := value_mem_message hbyte
        exact hascii f hf b hbf
    | url | method | version | headerField => exact execute_ascii hcall hspan hb
    | body | urlComplete | methodComplete | versionComplete | headerValueComplete
    | headersComplete => cases hspan
  obtain ⟨p, hp, htallies⟩ := (RequestParser.tallies_new llhttp).executeAll hvalid
  have hstart : (RequestParser.new llhttp).parser = llhttp.init := rfl
  rw [hstart, addAll_parse, hparsed, addEvents_message] at htallies
  rw [hstart, hcode] at hp
  refine ⟨p, hp, htallies.complete, htallies.method, htallies.url, htallies.version, ?_,
    htallies.body⟩
  simpa using htallies.headers

theorem lastMessage_ascii :
    ∀ f ∈ lastMessage.head.fields ++ lastMessage.body.trailers, ∀ b ∈ f.2, Utf8.isAscii b := by
  have hall : (lastMessage.head.fields ++ lastMessage.body.trailers).all fun f =>
      f.2.all Utf8.isAscii :=
    rfl
  intro f hf b hb
  exact List.all_eq_true.mp (List.all_eq_true.mp hall f hf) b hb

theorem request_collected_last :
    ∃ p, (RequestParser.new llhttp).executeAll
        [lastMessage.bytes.take 20, lastMessage.bytes.drop 20] = some (p, 0) ∧
      p.isHeaderComplete ∧ p.method = some lastMessage.head.method ∧
      p.url = some lastMessage.head.url ∧ p.version = some lastMessage.head.version ∧
      p.headers = collect (lastMessage.head.fields ++ lastMessage.body.trailers) ∧
      p.bodyBuf = lastMessage.body.data :=
  request_collected lastMessage_isMessage lastMessage_read lastMessage_ascii (by simp)

end Internal

end Rslinker
