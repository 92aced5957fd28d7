import Rslinker.Llhttp.HeadReports

set_option autoImplicit false

/-! # What comes behind a head

Behind the report of its end, llhttp asks `llhttp__after_headers_complete` how the message goes on.
Only for a body of a fixed length (code 3) the next bytes are body data, as many as `content_length`
tells; the framing of chunks, the head of a further request or what belongs to another protocol are
not. So what llhttp reports as body data are all of the bytes behind the head exactly when these are
not more than the `plain` ones (`ReadsHead.body_iff`). For code 1 it pauses, whatever there is behind
the head (`ReadsHead.pauses`).
-/

namespace Rslinker.Internal

open Scan

/-! ## The codes

0 is for no body, 1 for an upgrade, 2 for chunks, 3 for a fixed length, 4 for a body up to the end
of the connection and 5 for an invalid `Transfer-Encoding`. The code is a function of the flags,
the length and the method that the head has left behind. -/

def hpePausedUpgrade : Nat := 22

/-- How many bytes behind the head are body data, before any other byte comes. -/
def plain (d : Internal) : Nat := if d.afterHeadersComplete.2 = 3 then d.contentLength else 0

/-- The node behind a head. -/
def bodyLabel (code : Nat) : Label :=
  lookup [(1, .invokeOnMessageComplete1), (2, .invokeUpdateContentLength1), (3, .spanStartOnBody1),
    (4, .invokeUpdateFinish3), (5, .error39)] .invokeOnMessageComplete code

theorem after_head_steps (d : Internal) (y : Bytes) :
    Steps machine ⟨.invokeAfterHeadersComplete, 0, none, d⟩ y []
      ⟨bodyLabel d.afterHeadersComplete.2, 0, none, d⟩ y :=
  Machine.invoke_steps (m := machine) (l := .invokeAfterHeadersComplete) rfl (none : Option Span) d y

/-- A request never lasts to the end of the connection. -/
theorem afterHeadersComplete_ne_four (d : Internal) : d.afterHeadersComplete.2 ≠ 4 := by
  unfold afterHeadersComplete messageNeedsEof
  dsimp only
  repeat' split
  all_goals simp_all

theorem contentLength_of_three {d : Internal} (h : d.afterHeadersComplete.2 = 3) :
    d.contentLength ≠ 0 := by
  intro hzero
  unfold afterHeadersComplete at h
  dsimp only at h
  repeat' split at h
  all_goals simp_all

/-- **Which heads pause llhttp**: those of `CONNECT` requests, and those that ask for an upgrade and
have no body. -/
theorem announce_pauses (d : Internal) :
    d.announce.afterHeadersComplete.2 = 1 ↔ d.method = httpConnect ∨
      d.flags.upgrade ∧ d.flags.connectionUpgrade ∧ ¬ d.flags.chunked ∧ d.contentLength = 0 := by
  have hcode : d.announce.afterHeadersComplete.2 = 1 ↔ (d.announce.upgrade &&
      (d.announce.method = httpConnect ||
        !(d.announce.flags.chunked || decide (d.announce.contentLength > 0)))) = true := by
    rw [afterHeadersComplete]
    dsimp only
    split
    · case isTrue h => exact iff_of_true rfl h
    · case isFalse h =>
        refine iff_of_false ?_ h
        repeat' split
        all_goals decide
  rw [hcode, announce, beforeHeadersComplete]
  cases hupgrade : d.flags.upgrade && d.flags.connectionUpgrade with
  | true =>
      obtain ⟨hu, hc⟩ := Bool.and_eq_true_iff.mp hupgrade
      simp [hu, hc]
  | false =>
      have hnot : ¬ (d.flags.upgrade = true ∧ d.flags.connectionUpgrade = true) := by
        simpa using hupgrade
      simp only [Bool.and_eq_true, Bool.or_eq_true, decide_eq_true_eq, Bool.false_eq_true, if_false]
      tauto

/-! ## Nodes in front of a byte

Which callbacks are possible before the next byte is taken is checked over all nodes that can be
passed until then (`Machine.confined`). Behind the head no span is opened without a byte, and
behind a body of a fixed length none of a further body. -/

/-- Nothing is called back by this node. -/
def silent : Node Label Internal Span Report → Bool
  | .report r _ => callback (.report r) = none
  | _ => true

/-- The node does not open a body. -/
def bodiless : Node Label Internal Span Report → Bool
  | .spanStart k _ => k ≠ .body
  | _ => true

theorem silent_behind : machine.confined silent 23 .invokeAfterHeadersComplete := rfl

theorem silent_consume : machine.confined silent 23 .consumeContentLength1 := rfl

theorem bodiless_behind {code : Nat} (hthree : code ≠ 3) (hfour : code ≠ 4) :
    machine.confined bodiless 23 (bodyLabel code) := by
  rcases code with _ | _ | _ | _ | _ | _ | code
  · rfl
  · rfl
  · rfl
  · exact absurd rfl hthree
  · exact absurd rfl hfour
  · rfl
  · have hlabel : bodyLabel (code + 6) = .invokeOnMessageComplete := by simp [bodyLabel, lookup]
    rw [hlabel]
    rfl

theorem bodiless_complete : machine.confined bodiless 23 .invokeOnMessageComplete2 := rfl

/-- Silent reports add nothing. -/
theorem addEvents_silent {l : Label} (hl : machine.confined silent 23 l) {i : Nat}
    {span : Option Span} {d : Internal} {es : List (Event Span Report)}
    {e : Config Label Internal Span} {y : Bytes} (h : Steps machine ⟨l, i, span, d⟩ [] es e y)
    (s : Tally) : addEvents s es = s := by
  have hreports := h.report_of_confined hl rfl
  clear h
  induction es with
  | nil => rfl
  | cons event es ih =>
      obtain ⟨r, t, rfl, hsilent⟩ := hreports event List.mem_cons_self
      have hnone : callback (.report r) = none := by simpa [silent] using hsilent
      rw [addEvents_report, hnone]
      exact ih fun e he => hreports e (List.mem_cons_of_mem _ he)

/-- The body data are the bytes of bodies. -/
theorem length_body_addEvents (s : Tally) (es : List (Event Span Report)) :
    (addEvents s es).body.length = s.body.length + es.countP (Event.isByte .body) := by
  induction es generalizing s with
  | nil => rfl
  | cons e es ih =>
      show (addEvents (addEvent s e) es).body.length = _
      rw [ih, List.countP_cons]
      cases e with
      | byte k b =>
          cases k <;> simp [addEvent, callback, Tally.add, Event.isByte]
          omega
      | report r => cases r <;> simp [addEvent, callback, Tally.add, Event.isByte]

/-! ## The bytes behind a head

The plain bytes are taken as body data, to the last of them. If the input goes on behind them, the
next byte comes in front of any other body; if it does not, nothing more is called back. -/

section Plain

variable {d : Internal} {tail : Bytes}

/-- The bytes behind a head while all of them are plain. -/
theorem plain_part (hne : tail ≠ []) (hle : tail.length ≤ d.plain) :
    ∃ l e, Steps machine ⟨.invokeAfterHeadersComplete, 0, none, d⟩ tail
        (eatenAll (some .body) tail) ⟨l, 0, some .body, e⟩ [] ∧ machine.confined silent 23 l := by
  have hpos := List.length_pos_iff.mpr hne
  unfold plain at hle
  split at hle
  · case isTrue hcode =>
      have hafter := after_head_steps d tail
      rw [hcode] at hafter
      have hopen : Steps machine ⟨.spanStartOnBody1, 0, none, d⟩ tail []
          ⟨.consumeContentLength1, 0, some .body, d⟩ tail := by
        obtain ⟨b, rest, rfl⟩ := List.exists_cons_of_ne_nil hne
        exact .of_quiet rfl
      have hbegin := hafter.silent hopen
      rcases Nat.lt_or_eq_of_le hle with hlt | heq
      · have htake := steps_consume_part (m := machine)
          (c := ⟨.consumeContentLength1, 0, some .body, d⟩) rfl (u := tail) hlt []
        rw [List.append_nil] at htake
        exact ⟨.consumeContentLength1, _, hbegin.trans htake, silent_consume⟩
      · have htake := steps_consume_all (m := machine)
          (c := ⟨.consumeContentLength1, 0, some .body, d⟩) rfl (u := tail) heq []
        rw [List.append_nil] at htake
        exact ⟨.spanEndOnBody1, _, hbegin.trans htake, rfl⟩
  · omega

/-- Behind the plain bytes. -/
theorem plain_steps (hle : d.plain ≤ tail.length) :
    ∃ l e, Steps machine ⟨.invokeAfterHeadersComplete, 0, none, d⟩ tail
        (eatenAll (some .body) (tail.take d.plain)) ⟨l, 0, none, e⟩ (tail.drop d.plain) ∧
      machine.confined bodiless 23 l := by
  by_cases hcode : d.afterHeadersComplete.2 = 3
  · have hplain : d.plain = d.contentLength := if_pos hcode
    rw [hplain] at hle ⊢
    have hlength : (tail.take d.contentLength).length = d.contentLength :=
      List.length_take_of_le hle
    have hne : tail.take d.contentLength ≠ [] := by
      rw [← List.length_pos_iff, hlength]
      exact Nat.pos_of_ne_zero (contentLength_of_three hcode)
    have hself : { d with contentLength := (tail.take d.contentLength).length } = d := by
      rw [hlength]
    have hafter := after_head_steps d tail
    rw [hcode] at hafter
    have hdata := data_steps (show node .spanStartOnBody1 = .spanStart .body _ from rfl) rfl hne d
      (tail.drop d.contentLength)
    rw [hself, List.take_append_drop] at hdata
    have hend : Steps machine ⟨.spanEndOnBody1, 0, some .body, { d with contentLength := 0 }⟩
        (tail.drop d.contentLength) []
        ⟨.invokeOnMessageComplete2, 0, none, { d with contentLength := 0 }⟩
        (tail.drop d.contentLength) := .of_quiet rfl
    exact ⟨_, _, hafter.trans (hdata.silent hend), bodiless_complete⟩
  · have hplain : d.plain = 0 := if_neg hcode
    rw [hplain]
    exact ⟨_, d, after_head_steps d tail, bodiless_behind hcode (afterHeadersComplete_ne_four d)⟩

end Plain

/-- Without an error the input is read. -/
theorem reads_of_code {reads : List Bytes} (h : (llhttp.parse llhttp.init reads).2 = 0) :
    ∃ e, Reads machine (startConfig init) reads.flatten (start.parsed reads) e := by
  rw [parse_code] at h
  rcases scanner.ends.reads_or_fails (startConfig init) reads.flatten with
    ⟨es, e, hreads⟩ | ⟨es, e, y, errno, reason, resume, hfails⟩
  · obtain ⟨-, -, hparsed, -⟩ := Resting.parse_of_reads start_waits hreads
    exact ⟨e, hparsed ▸ hreads⟩
  · obtain ⟨-, -, hcode, hne, -⟩ := Resting.parse_of_fails start_waits hfails
    exact absurd (hcode.symm.trans h) hne

namespace ReadsHead

variable {x tail : Bytes} {head : Head} {d : Internal} {reads : List Bytes}

/-- What is called back, as events: those of the head, its end, and what comes behind it. -/
theorem parsed_eq (h : ReadsHead x head d) (hreads : reads.flatten = x ++ tail)
    (hcode : (llhttp.parse llhttp.init reads).2 = 0) {es : List (Event Span Report)}
    {e : Config Label Internal Span} {y : Bytes}
    (hsteps : Steps machine ⟨.invokeAfterHeadersComplete, 0, none, d⟩ tail es e y) :
    ∃ gs e', Steps machine e y gs e' [] ∧
      Tally.empty.addAll (llhttp.parse llhttp.init reads).1.flatten = addEvents
        ⟨some head.method, some head.url, some head.version, [], [], [], [], [], head.fields, true, []⟩
        (es ++ gs) := by
  obtain ⟨hs, -, hmoves, htally⟩ := h.moves
  obtain ⟨e', hall⟩ := reads_of_code hcode
  have hfront := (hmoves tail).trans ((headersComplete_steps d tail).trans hsteps)
  rw [← hreads] at hfront
  obtain ⟨gs, hparsed, hgs⟩ := hall.steps.determined hall.ends hfront
  refine ⟨gs, e', hgs, ?_⟩
  rw [addAll_parse, hparsed, List.append_assoc, addEvents_append, htally, List.append_assoc,
    List.singleton_append, addEvents_report]
  rfl

/-- While all bytes behind the head are plain, nothing but the body is added to it. -/
theorem tally_of_plain (h : ReadsHead x head d) (hreads : reads.flatten = x ++ tail)
    (hcode : (llhttp.parse llhttp.init reads).2 = 0) (hle : tail.length ≤ d.plain) :
    Tally.empty.addAll (llhttp.parse llhttp.init reads).1.flatten =
      ⟨some head.method, some head.url, some head.version, [], [], [], [], [], head.fields, true,
        tail⟩ := by
  rcases List.eq_nil_or_concat tail with rfl | ⟨front, b, rfl⟩
  · obtain ⟨gs, e', hgs, htally⟩ := h.parsed_eq hreads hcode (.refl _ [])
    rw [htally, List.nil_append, addEvents_silent silent_behind hgs]
  · obtain ⟨l, e, hsteps, hl⟩ := plain_part (by simp) hle
    obtain ⟨gs, e', hgs, htally⟩ := h.parsed_eq hreads hcode hsteps
    rw [htally, addEvents_append, addEvents_silent hl hgs, addEvents_span]
    rfl

/-- **The bytes behind a head are its body data** exactly when all of them are plain, and then the
request line stays. -/
theorem body_iff (h : ReadsHead x head d) (hreads : reads.flatten = x ++ tail)
    (hcode : (llhttp.parse llhttp.init reads).2 = 0) {s : Tally}
    (hs : Tally.empty.addAll (llhttp.parse llhttp.init reads).1.flatten = s) :
    (s.body = tail ↔ tail.length ≤ d.plain) ∧
      (tail.length ≤ d.plain → s.method = some head.method ∧ s.url = some head.url ∧
        s.version = some head.version) := by
  rcases Nat.lt_or_ge d.plain tail.length with hlong | hshort
  · -- the byte behind the plain ones is not body data
    obtain ⟨l, e, hsteps, hl⟩ := plain_steps hlong.le
    obtain ⟨gs, e', hgs, htally⟩ := h.parsed_eq hreads hcode hsteps
    have hfew := hgs.bytes_of_confined (k := .body) (fun t => rfl) hl (by simp) (by
      rw [List.length_nil, List.length_drop]
      omega)
    have hlength : s.body.length < tail.length := by
      have htake := hsteps.countP_le (k := .body)
      rw [← hs, htally, length_body_addEvents, List.countP_append]
      simp only [List.length_nil, List.length_drop] at hfew htake ⊢
      omega
    refine ⟨iff_of_false ?_ (Nat.not_le.mpr hlong), fun hle => absurd hle (Nat.not_le.mpr hlong)⟩
    intro heq
    rw [heq] at hlength
    exact Nat.lt_irrefl _ hlength
  · rw [← hs, h.tally_of_plain hreads hcode hshort]
    exact ⟨iff_of_true rfl hshort, fun _ => ⟨rfl, rfl, rfl⟩⟩

/-- **llhttp pauses behind a head that asks for it**, whatever follows. -/
theorem pauses (h : ReadsHead x head d) (hreads : reads.flatten = x ++ tail)
    (hpause : d.afterHeadersComplete.2 = 1) :
    (llhttp.parse llhttp.init reads).2 = hpePausedUpgrade := by
  obtain ⟨es, -, hmoves, -⟩ := h.moves
  have hafter := after_head_steps d tail
  rw [hpause] at hafter
  have hend : Steps machine ⟨.invokeOnMessageComplete1, 0, none, d⟩ tail [.report .messageComplete]
      ⟨.pause1, 0, none, d⟩ tail := .of_quiet rfl
  have hsteps := (hmoves tail).trans ((headersComplete_steps d tail).trans (hafter.trans hend))
  rw [← hreads] at hsteps
  have hfails : Fails machine (startConfig init) reads.flatten _ ⟨.pause1, 0, none, d⟩ tail
      hpePausedUpgrade "Pause on CONNECT/Upgrade" (some .invokeAfterMessageComplete) := ⟨hsteps, rfl⟩
  obtain ⟨-, -, hcode, -⟩ := Resting.parse_of_fails start_waits hfails
  rw [parse_code, hcode]

end ReadsHead

end Rslinker.Internal
