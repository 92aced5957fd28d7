import Rslinker.Client.HttpPanic
import Rslinker.Llhttp.RoundTrip
import Rslinker.Llhttp.Phases
import Rslinker.Llhttp.Spans

set_option autoImplicit false

/-! # What is documented of llhttp

The results about the HTTP channel rest on what is known of llhttp: the parts of the request line
and the names of headers are ASCII, the value of a header is cut next to ASCII characters or at an
end of the input, and the version is reported after the method and the URL. All of this holds of
the nodes of llhttp.

The first two are facts about the bytes at a node, and come from the annotation of `Spans.lean`;
the third is one about the order of callbacks, and comes from the grammar of `Phases.lean`. What is
left here is to get from the spans of one call to the callbacks of many.
-/

namespace Rslinker

open Scan Internal

namespace Internal

/-! ## Pieces of the input

A span is given by its two ends in the piece. At an end of it there is the end of the piece, or a
byte next to it that is known; ASCII is enough for a clean cut. -/

theorem eq_piece {bytes : Bytes} {start stop : Nat} (h : start ≤ stop) :
    bytes = bytes.take start ++ (piece bytes start stop ++ bytes.drop stop) := by
  have hstop : bytes.drop stop = (bytes.drop start).drop (stop - start) := by
    rw [List.drop_drop, Nat.add_sub_cancel' h]
  rw [piece, hstop, List.take_append_drop, List.take_append_drop]

/-- The last byte of what comes before a position. -/
theorem mem_getLast?_take {bytes : Bytes} {pos : Nat} (hpos : 0 < pos) (hle : pos ≤ bytes.length)
    {b : UInt8} (hb : bytes[pos - 1]? = some b) : b ∈ (bytes.take pos).getLast? := by
  have hlength : (bytes.take pos).length = pos := List.length_take_of_le hle
  rw [Option.mem_def, List.getLast?_eq_getElem?, hlength, List.getElem?_take_of_lt (by omega), hb]

/-- Next to a value there are ASCII characters, or an end of the input. -/
theorem clean_cuts {bytes : Bytes} {start stop : Nat} (hstart : start ≤ stop)
    (hstop : stop ≤ bytes.length) (h : facts.SpanKnown bytes .headerValue start stop) :
    Utf8.CleanCut (bytes.take start) (piece bytes start stop ++ bytes.drop stop) ∧
      Utf8.CleanCut (piece bytes start stop) (bytes.drop stop) := by
  have hascii : ∀ b, asciiBytes.has b → Utf8.isAscii b := by
    intro b hb
    simp only [asciiBytes, ByteSet.has, List.any_cons, List.any_nil, Bool.or_false,
      Bool.and_eq_true, decide_eq_true_eq] at hb
    simpa [Utf8.isAscii] using UInt8.lt_of_le_of_lt hb.2 (by decide)
  have hbefore : ∀ b, beforeValue.has b → Utf8.isAscii b :=
    fun b hb => hascii b (ByteSet.has_of_sub (by decide) hb)
  constructor
  · rcases Nat.eq_zero_or_pos start with rfl | hpos
    · exact .inl rfl
    · have hlt : start - 1 < bytes.length := by omega
      have hget := List.getElem?_eq_getElem hlt
      exact .inr (.inr (.inl ⟨_, mem_getLast?_take hpos (by omega) hget,
        hbefore _ (h.before _ hpos hget)⟩))
  · rcases h.after with hnext | hall
    · rcases hdrop : bytes.drop stop with _ | ⟨b, rest⟩
      · exact .inr (.inl rfl)
      · have hget : bytes[stop]? = some b := by
          have hhead := congrArg (·[0]?) hdrop
          simpa using hhead
        exact .inr (.inr (.inr ⟨b, rfl, hascii b (hnext b hget)⟩))
    · rcases hlast : (piece bytes start stop).getLast? with _ | b
      · exact .inl (List.getLast?_eq_none_iff.mp hlast)
      · exact .inr (.inr (.inl ⟨b, hlast, hascii b (hall b (List.mem_of_getLast? hlast))⟩))

/-! ## Callbacks

A callback of `RequestParser` is a span with its bytes or a report, and what is known of it is
known of some span in some call. The order is read off the phases: a version can only be complete
in a phase that is entered behind a URL, and this in turn behind a method. -/

/-- A callback comes from a span or a report of llhttp. -/
theorem mem_execute {s : llhttp.State} {bytes : Bytes} {cb : Callback}
    (h : cb ∈ (llhttp.execute s bytes).2.1) :
    ∃ out ∈ (s.call bytes).2.1, callback (out.call bytes) = some cb := by
  obtain ⟨call, hcall, hcb⟩ := List.mem_filterMap.mp h
  obtain ⟨out, hout, rfl⟩ := List.mem_map.mp hcall
  exact ⟨out, hout, hcb⟩

/-- The kind of the span that a callback gets. -/
def spanOf : Callback → Option (Span × Bytes)
  | .method span => some (.method, span)
  | .url span => some (.url, span)
  | .version span => some (.version, span)
  | .headerField span => some (.headerField, span)
  | .headerValue span => some (.headerValue, span)
  | .body span => some (.body, span)
  | _ => none

theorem callback_span {call : Call Span Report} {cb : Callback} {k : Span} {span : Bytes}
    (h : callback call = some cb) (hspan : spanOf cb = some (k, span)) : call = .span k span := by
  cases call with
  | span k' bytes => cases k' <;> cases h <;> cases hspan <;> rfl
  | report r => cases r <;> cases h <;> cases hspan

/-- The span of a callback is a piece of the input, of which the facts are known. -/
theorem execute_span {s : llhttp.State} {bytes : Bytes} {cb : Callback}
    (h : cb ∈ (llhttp.execute s bytes).2.1) {k : Span} {span : Bytes}
    (hspan : spanOf cb = some (k, span)) :
    ∃ start stop, start ≤ stop ∧ stop ≤ bytes.length ∧ span = piece bytes start stop ∧
      facts.SpanKnown bytes k start stop := by
  obtain ⟨out, hout, hcb⟩ := mem_execute h
  have hcall := callback_span hcb hspan
  cases out with
  | report r => cases hcall
  | span k' start stop =>
      obtain ⟨rfl, rfl⟩ := Call.span.inj hcall
      obtain ⟨-, hstart, hstop⟩ := (call_ordered s bytes).bounds hout
      exact ⟨start, stop, hstart, hstop, rfl, call_known facts_agree s bytes hout⟩

/-- What llhttp has called back so far is in the order of the grammar. -/
theorem reported_accepts {s : llhttp.State} {cbs : List Callback} (h : llhttp.Reported s cbs) :
    ∃ calls q, cbs = calls.filterMap callback ∧ grammar.Accepts .idle calls q ∧
      s.InPhase phases q := by
  induction h with
  | init => exact ⟨[], .idle, rfl, .nil _, start_inPhase⟩
  | @execute s cbs bytes _ ih =>
      obtain ⟨calls, q, rfl, haccepts, hphase⟩ := ih
      obtain ⟨q', haccepts', hphase'⟩ := call_accepts hphase bytes
      refine ⟨calls ++ (s.call bytes).2.1.map (Out.call bytes), q', ?_,
        haccepts.append haccepts', hphase'⟩
      rw [List.filterMap_append]
      rfl

theorem into_version {p : Phase} {r : Report} (h : .version ∈ p.after r) :
    p = .url ∧ r = .urlComplete := by
  cases p <;> cases r <;> simp [Phase.after] at h ⊢

theorem into_url {p : Phase} {r : Report} (h : .url ∈ p.after r) : r = .methodComplete := by
  cases p <;> cases r <;> simp [Phase.after] at h ⊢

theorem of_versionComplete {p q : Phase} (h : q ∈ p.after .versionComplete) : p = .version := by
  cases p <;> first | rfl | cases h

/-- The version is complete only behind the method and the URL. -/
theorem accepts_order {p q : Phase} {calls : List (Call Span Report)}
    (h : grammar.Accepts p calls q) (hmem : .report .versionComplete ∈ calls) :
    (p ≠ .version → .report .urlComplete ∈ calls) ∧
      (p ≠ .url → p ≠ .version → .report .methodComplete ∈ calls) := by
  induction h with
  | nil => cases hmem
  | span hspan _ ih =>
      obtain ⟨hurl, hmethod⟩ := ih (by simpa using hmem)
      exact ⟨fun hp => List.mem_cons_of_mem _ (hurl hp),
        fun hp hp' => List.mem_cons_of_mem _ (hmethod hp hp')⟩
  | @report p p' q r calls hstep _ ih =>
      rcases List.mem_cons.mp hmem with heq | hmem
      · cases heq
        have hversion := of_versionComplete hstep
        exact ⟨fun hp => absurd hversion hp, fun _ hp => absurd hversion hp⟩
      · obtain ⟨hurl, hmethod⟩ := ih hmem
        constructor
        · intro hp
          by_cases hp' : p' = .version
          · subst hp'
            obtain ⟨-, rfl⟩ := into_version hstep
            exact List.mem_cons_self
          · exact List.mem_cons_of_mem _ (hurl hp')
        · intro hp hp₂
          by_cases hversion : p' = .version
          · subst hversion
            exact absurd (into_version hstep).1 hp
          · by_cases hp' : p' = .url
            · subst hp'
              obtain rfl := into_url hstep
              exact List.mem_cons_self
            · exact List.mem_cons_of_mem _ (hmethod hp' hversion)

/-- Method, URL, version and the names of headers are ASCII. -/
theorem execute_ascii {s : llhttp.State} {bytes : Bytes} {cb : Callback}
    (h : cb ∈ (llhttp.execute s bytes).2.1) {span : Bytes} (hspan : span ∈ cb.asciiSpan) {b : UInt8}
    (hb : b ∈ span) : Utf8.isAscii b := by
  have hkind : ∃ k, spanOf cb = some (k, span) ∧
      (k = .method ∨ k = .url ∨ k = .version ∨ k = .headerField) := by
    cases cb <;> cases hspan <;> exact ⟨_, rfl, by simp⟩
  obtain ⟨k, hk, hcases⟩ := hkind
  obtain ⟨start, stop, -, -, rfl, hknown⟩ := execute_span h hk
  have hsub : (spanBytes k).sub asciiBytes := by
    rcases hcases with rfl | rfl | rfl | rfl <;> decide
  have hascii := ByteSet.has_of_sub hsub (hknown.bytes b hb)
  simp only [asciiBytes, ByteSet.has, List.any_cons, List.any_nil, Bool.or_false,
    Bool.and_eq_true, decide_eq_true_eq] at hascii
  simpa [Utf8.isAscii] using UInt8.lt_of_le_of_lt hascii.2 (by decide)

/-- The span of a value has clean cuts. -/
theorem execute_value {s : llhttp.State} {bytes span : Bytes}
    (h : .headerValue span ∈ (llhttp.execute s bytes).2.1) :
    ∃ before after, bytes = before ++ (span ++ after) ∧ Utf8.CleanCut before (span ++ after) ∧
      Utf8.CleanCut span after := by
  obtain ⟨start, stop, hstart, hstop, rfl, hknown⟩ := execute_span h rfl
  obtain ⟨hbefore, hafter⟩ := clean_cuts hstart hstop hknown
  exact ⟨bytes.take start, bytes.drop stop, eq_piece hstart, hbefore, hafter⟩

/-- The version comes behind the method and the URL. -/
theorem reported_order {s : llhttp.State} {cbs : List Callback} (h : llhttp.Reported s cbs)
    (hversion : .versionComplete ∈ cbs) : .methodComplete ∈ cbs ∧ .urlComplete ∈ cbs := by
  obtain ⟨calls, q, rfl, haccepts, -⟩ := reported_accepts h
  obtain ⟨hurl, hmethod⟩ := accepts_order haccepts
    ((report_mem_filterMap (r := .versionComplete) rfl).mp hversion)
  exact ⟨(report_mem_filterMap (r := .methodComplete) rfl).mpr (hmethod (by decide) (by decide)),
    (report_mem_filterMap (r := .urlComplete) rfl).mpr (hurl (by decide))⟩

end Internal

/-- **llhttp does what is documented of it.** -/
theorem llhttp_documented : llhttp.Documented where
  ascii _ _ _ hcb _ hspan _ hb := execute_ascii hcb hspan hb
  value _ _ _ hspan := execute_value hspan
  order _ _ hreported hversion := reported_order hreported hversion

end Rslinker
