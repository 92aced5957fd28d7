import Rslinker.Llhttp.Machine
import Rslinker.Basic.ScannerGrammar

set_option autoImplicit false

/-! # The order of the callbacks

A connection is a sequence of messages, and llhttp calls back the parts of a message in their order,
whatever its input is. The phases of a message are those of its head, then, as the head says, those
of a body of fixed length, of chunks and their trailers, or of no body. A part of the nodes may
belong to two phases: trailers are read by the nodes for headers, and `F_TRAILING` tells the two
apart.

`callbacks_in_order` needs nothing of the input. It is what a program that is called back may rely
on for arbitrary bytes, errors included: before the error everything has come in order.
-/

namespace Rslinker.Internal

open Scan

/-! ## Phases

The grammar in full. A span may be called back in any number of parts in its phase, and only a
report leads on. Nothing is said of lengths: that a body has as many bytes as it should is the
subject of other modules. -/

inductive Phase
  /-- between two messages -/
  | idle
  | method | url | version
  /-- in the name or in the value of a header, or between two headers -/
  | name | value
  /-- in a body of fixed length -/
  | fixed
  /-- behind a head without a body -/
  | empty
  /-- between two chunks, and in one -/
  | chunked | chunk
  | trailerName | trailerValue | trailerEnd
  deriving DecidableEq, Repr

namespace Phase

/-- Where a report leads. -/
def after : Phase → Report → List Phase
  | idle, .reset => [idle]
  | idle, .messageBegin => [method]
  | method, .methodComplete => [url]
  -- without a version in the request line it is HTTP/0.9
  | url, .urlComplete => [version, name]
  | version, .versionComplete => [name]
  | name, .headerFieldComplete => [value]
  | value, .headerValueComplete => [name]
  | name, .headersComplete => [fixed, empty, chunked]
  | fixed, .messageComplete | empty, .messageComplete | trailerEnd, .messageComplete => [idle]
  | chunked, .chunkExtensionNameComplete | chunked, .chunkExtensionValueComplete => [chunked]
  | chunked, .chunkHeader => [chunk, trailerName]
  | chunk, .chunkComplete => [chunked]
  | trailerName, .headerFieldComplete => [trailerValue]
  | trailerValue, .headerValueComplete => [trailerName]
  | trailerName, .chunkComplete => [trailerEnd]
  | _, _ => []

def spans : Phase → List Span
  | method => [.method]
  | url => [.url]
  | version => [.version]
  | name | trailerName => [.headerField]
  | value | trailerValue => [.headerValue]
  | fixed | chunk => [.body]
  | chunked => [.chunkExtensionName, .chunkExtensionValue]
  | idle | empty | trailerEnd => []

end Phase

/-- In which order llhttp calls back. -/
def grammar : Grammar Phase Span Report where
  step p r q := q ∈ p.after r
  spans p k := k ∈ p.spans

/-! ## Parts of the nodes

The nodes are divided into parts that, but for a few nodes, are only left by a report. Where a span
is open the part is that of the span; elsewhere it is given by a table. A part together with what
is known of the data is a phase. -/

inductive Part
  | idle | method | url | version | name | value | headEnd | framed | fixed | empty | messageEnd
  | chunked | chunkStart | chunk | trailerStart | trailerStop | ended
  deriving DecidableEq, Repr

/-- The part of a node without an open span. -/
def betweenSpans : Label → Part
  | .invokeLoadType | .spanStartOnMethod1 | .invokeOnMethodComplete1 => .method
  | .reqFirstSpaceBeforeUrl | .reqSpacesBeforeUrl | .invokeIsEqualMethod | .urlEntryNormal
  | .error2 | .spanStartOnUrl1 | .urlSkipToHttp09 | .urlToHttp09 | .invokeUpdateHttpMajor
  | .invokeUpdateHttpMinor | .invokeOnUrlComplete | .urlSkipLfToHttp09 | .urlSkipLfToHttp091
  | .error61 | .urlSkipToHttp | .urlToHttp | .invokeOnUrlComplete1 | .urlEntryConnect
  | .spanStartOnUrl | .error86 => .url
  | .reqHttpStart | .reqHttpStart1 | .invokeLoadMethod | .spanStartOnVersion
  | .invokeOnVersionComplete | .error64 | .error71 | .error72 | .error73 | .error63 | .error76
  | .reqHttpStart2 | .invokeLoadMethod2 | .error74 | .reqHttpStart3 | .invokeLoadMethod3
  | .error75 => .version
  | .invokeLoadMethod1 | .reqPriUpgrade | .error69 | .error70 | .reqHttpComplete
  | .invokeTestLenientFlags24 | .error66 | .reqHttpCompleteCrlf | .invokeTestLenientFlags25
  | .error67 | .error68 | .headersStart | .invokeTestLenientFlags | .error4 | .headerFieldStart
  | .invokeTestLenientFlags1 | .error5 | .headersAlmostDone | .invokeTestFlags1
  | .invokeTestLenientFlags12 | .error43 | .spanStartOnHeaderField
  | .invokeOnHeaderFieldComplete => .name
  | .invokeLoadHeaderState | .invokeTestFlags4 | .invokeTestLenientFlags21 | .error58
  | .headerValueDiscardWs | .invokeTestLenientFlags14 | .error45
  | .headerValueDiscardWsAlmostDone | .headerValueDiscardLws | .invokeTestLenientFlags15
  | .error46 | .invokeLoadHeaderState1 | .error48 | .invokeLoadHeaderState2 | .invokeOrFlags5
  | .invokeUpdateHeaderState | .spanStartOnHeaderValue | .invokeOnHeaderValueComplete
  | .invokeOrFlags6 | .invokeOrFlags7 | .invokeOrFlags8 | .invokeTestLenientFlags16 | .error49
  | .spanStartOnHeaderValue1 | .invokeTestLenientFlags17 | .error50 | .headerValueAlmostDone
  | .headerValueLws | .invokeLoadHeaderState4 | .invokeUpdateHeaderState1
  | .invokeLoadHeaderState5 | .invokeOrFlags9 | .invokeUpdateHeaderState2 | .invokeOrFlags10
  | .invokeOrFlags11 | .invokeOrFlags12 | .error51 | .error52 | .error54 | .error55 | .error57
  | .error56 | .invokeTestFlags5 | .invokeTestLenientFlags22 | .error59 => .value
  | .invokeBeforeHeadersComplete1 | .invokeOnHeadersComplete1 => .headEnd
  | .invokeAfterHeadersComplete => .framed
  | .spanStartOnBody1 | .invokeUpdateFinish3 | .spanStartOnBody2 => .fixed
  | .invokeOnMessageComplete1 | .error39 | .invokeOnMessageComplete => .empty
  | .invokeOnMessageComplete2 => .messageEnd
  | .invokeUpdateContentLength1 | .chunkSizeDigit | .invokeMulAddContentLength _ | .error36
  | .chunkSize | .chunkSizeOtherwise | .invokeTestLenientFlags4 | .error10
  | .invokeTestLenientFlags5 | .error11 | .chunkSizeAlmostDone | .invokeOnChunkHeader
  | .invokeTestLenientFlags8 | .error16 | .chunkExtensions | .error17 | .error18
  | .spanStartOnChunkExtensionName | .invokeOnChunkExtensionNameComplete
  | .invokeTestLenientFlags9 | .error20 | .invokeOnChunkExtensionNameComplete1
  | .invokeOnChunkExtensionNameComplete2 | .spanStartOnChunkExtensionValue
  | .invokeOnChunkExtensionValueComplete | .invokeTestLenientFlags10 | .error25
  | .invokeOnChunkExtensionValueComplete1 | .invokeOnChunkExtensionValueComplete2
  | .chunkExtensionQuotedValueDone | .invokeTestLenientFlags11 | .error28 | .error29 | .error30
  | .error31 | .invokeOnChunkExtensionValueComplete3 | .error33 | .error34 | .error35
  | .error37 => .chunked
  | .invokeIsEqualContentLength => .chunkStart
  | .spanStartOnBody | .chunkDataAlmostDone | .invokeTestLenientFlags6 | .error13
  | .chunkDataAlmostDone1 | .invokeOnChunkComplete | .invokeTestLenientFlags7 | .error15 => .chunk
  | .invokeOrFlags => .trailerStart
  | .invokeOnChunkComplete2 => .trailerStop
  | .invokeIsEqualUpgrade | .invokeAfterMessageComplete | .pause1 => .ended
  | _ => .idle

def part (l : Label) : Part :=
  match openSpan l with
  | some .method => .method
  | some .url => .url
  | some .version => .version
  | some .headerField => .name
  | some .headerValue => .value
  | some .chunkExtensionName | some .chunkExtensionValue => .chunked
  | some .body =>
      match l with
      | .consumeContentLength | .spanEndOnBody => .chunk
      | _ => .fixed
  | none => betweenSpans l

/-- The phase of a part, when only `F_TRAILING` matters. -/
def Part.phase (trailing : Bool) : Part → Phase
  | .idle | .ended => .idle
  | .method => .method
  | .url => .url
  | .version => .version
  | .name => if trailing then .trailerName else .name
  | .value => if trailing then .trailerValue else .value
  | .headEnd => .name
  | .fixed | .framed => .fixed
  | .empty => .empty
  | .messageEnd => if trailing then .trailerEnd else .fixed
  | .chunked => .chunked
  | .chunk | .chunkStart => .chunk
  | .trailerStart | .trailerStop => .trailerName

def framing : Nat → Phase
  | 2 => .chunked
  | 3 | 4 => .fixed
  | _ => .empty

def phase (l : Label) (d : Internal) : Phase :=
  match part l with
  | .framed => framing d.afterHeadersComplete.2
  | .chunkStart => if d.contentLength = 0 then .trailerName else .chunk
  | p => p.phase d.flags.trailing

/-- What is known of `F_TRAILING`. -/
def Part.trailing : Part → Option Bool
  | .name | .value | .messageEnd | .trailerStart | .ended => none
  | .trailerStop => some true
  | _ => some false

def Part.allows (trailing : Bool) (p : Part) : Bool := p.trailing.all fun b => b = trailing

def inv (l : Label) (d : Internal) : Prop := (part l).allows d.flags.trailing

/-! ## The nodes

A check by computation for most nodes: their targets are in the same part, or they report something
and the phase goes on as the grammar says. The nodes that lead from part to part without a report
are the `turns`, and each of them has its reason in the data. -/

/-- The nodes that lead from one part to another without a report. -/
def turns : Label → Bool
  | .invokeTestFlags1 | .invokeAfterHeadersComplete | .invokeIsEqualContentLength | .invokeOrFlags
  | .spanEndOnBody1 | .invokeAfterMessageComplete | .invokeOnHeadersComplete1
  | .invokeOnChunkHeader => true
  | _ => false

/-- A report leads to the phase of its target. -/
def reportOk (a b : Part) (r : Report) : Bool :=
  [true, false].all fun t => !a.allows t || (b.allows t && (b.phase t ∈ (a.phase t).after r))

def nodeOk (l : Label) : Node Label Internal Span Report → Bool
  | .report r target =>
      reportOk (part l) (part target) r && part target ≠ .framed && part target ≠ .chunkStart
  | node => node.staysIn part (part l)

theorem nodeOk_or_turns (l : Label) : turns l || nodeOk l (node l) := by
  cases l <;> rfl

theorem mulAdd_flags (base m : Nat) (d : Internal) : (d.mulAdd base m).1.flags = d.flags := by
  unfold mulAdd
  split
  · rfl
  · split <;> rfl

theorem beforeHeadersComplete_flags (d : Internal) :
    d.beforeHeadersComplete.1.flags = d.flags := by
  unfold beforeHeadersComplete
  split <;> rfl

theorem node_frames (l : Label) (h : turns l = false) :
    (node l).Frames (fun d => d.flags.trailing) spend := by
  cases l with
  | invokeMulAddContentLength m => exact fun d => congrArg Flags.trailing (mulAdd_flags 16 m d)
  | invokeMulAddContentLength1 m => exact fun d => congrArg Flags.trailing (mulAdd_flags 10 m d)
  | invokeBeforeHeadersComplete1 =>
      exact fun d => congrArg Flags.trailing (beforeHeadersComplete_flags d)
  | _ => first
    | trivial
    | exact fun _ => rfl
    | exact fun _ _ => rfl

/-- In most parts the phase depends only on `F_TRAILING`. -/
def Part.isPlain (p : Part) : Bool := p ≠ .framed && p ≠ .chunkStart

theorem phase_eq {l : Label} {p : Part} (hp : part l = p) (hplain : p.isPlain) (d : Internal) :
    phase l d = p.phase d.flags.trailing := by
  subst hp
  simp only [Part.isPlain, ne_eq, Bool.and_eq_true, decide_eq_true_eq] at hplain
  unfold phase
  split
  · case h_1 h => exact absurd h hplain.1
  · case h_2 h => exact absurd h hplain.2
  · rfl

theorem inv_of_none {l : Label} (h : (part l).trailing = none) (d : Internal) : inv l d := by
  simp [inv, Part.allows, h]

theorem inv_iff {l : Label} {b : Bool} (h : (part l).trailing = some b) {d : Internal} :
    inv l d ↔ d.flags.trailing = b := by
  simp [inv, Part.allows, h, eq_comm]

/-- What an invoked function leads to. -/
theorem fits_invoke {l t : Label} {f : Internal → Internal × Nat} {cases : List (Nat × Label)}
    {otherwise : Label} {d d' : Internal} (hnode : node l = .invoke f cases otherwise)
    (hdata : (f d).1 = d') (htarget : lookup cases otherwise (f d).2 = t) (hinv : inv t d')
    (hphase : phase t d' = phase l d) : grammar.Fits phase inv spend l d (node l) := by
  rw [hnode]
  show inv (lookup cases otherwise (f d).2) (f d).1 ∧ phase (lookup cases otherwise (f d).2) (f d).1 = _
  rw [hdata, htarget]
  exact ⟨hinv, hphase⟩

/-- The nodes that lead from one part to another. -/
theorem turn_fits {l : Label} (hl : turns l) {d : Internal} (h : inv l d) :
    grammar.Fits phase inv spend l d (node l) := by
  cases l with
  | invokeTestFlags1 =>
      -- the end of the trailers, or the end of the head
      cases htrailing : d.flags.trailing with
      | true =>
          refine fits_invoke (t := .invokeOnChunkComplete2) rfl rfl ?_ ((inv_iff rfl).mpr htrailing) ?_
          · simp [testFlags, htrailing, lookup]
          · rw [phase_eq (p := .trailerStop) rfl rfl, phase_eq (p := .name) rfl rfl, htrailing]
            rfl
      | false =>
          refine fits_invoke (t := .invokeBeforeHeadersComplete1) rfl rfl ?_
            ((inv_iff rfl).mpr htrailing) ?_
          · simp [testFlags, htrailing, lookup]
          · rw [phase_eq (p := .headEnd) rfl rfl, phase_eq (p := .name) rfl rfl, htrailing]
            rfl
  | invokeAfterHeadersComplete =>
      have htrailing : d.flags.trailing = false := (inv_iff rfl).mp h
      have hphase : phase .invokeAfterHeadersComplete d = framing d.afterHeadersComplete.2 := rfl
      have hto : ∀ t, (part t).trailing = some false → (part t).isPlain →
          lookup [(1, .invokeOnMessageComplete1), (2, .invokeUpdateContentLength1),
            (3, .spanStartOnBody1), (4, .invokeUpdateFinish3), (5, .error39)]
            .invokeOnMessageComplete d.afterHeadersComplete.2 = t →
          (part t).phase false = framing d.afterHeadersComplete.2 →
          grammar.Fits phase inv spend .invokeAfterHeadersComplete d
            (node .invokeAfterHeadersComplete) := by
        intro t hinv hplain hlookup hframing
        refine @fits_invoke _ _ _ _ _ d d rfl rfl hlookup ((inv_iff hinv).mpr htrailing) ?_
        rw [hphase, phase_eq rfl hplain, htrailing, hframing]
      rcases hcode : d.afterHeadersComplete.2 with _ | _ | _ | _ | _ | _ | n
      · exact hto .invokeOnMessageComplete rfl rfl (by rw [hcode]; rfl) (by rw [hcode]; rfl)
      · exact hto .invokeOnMessageComplete1 rfl rfl (by rw [hcode]; rfl) (by rw [hcode]; rfl)
      · exact hto .invokeUpdateContentLength1 rfl rfl (by rw [hcode]; rfl) (by rw [hcode]; rfl)
      · exact hto .spanStartOnBody1 rfl rfl (by rw [hcode]; rfl) (by rw [hcode]; rfl)
      · exact hto .invokeUpdateFinish3 rfl rfl (by rw [hcode]; rfl) (by rw [hcode]; rfl)
      · exact hto .error39 rfl rfl (by rw [hcode]; rfl) (by rw [hcode]; rfl)
      · exact hto .invokeOnMessageComplete rfl rfl (by rw [hcode]; simp [lookup]) (by rw [hcode]; rfl)
  | invokeIsEqualContentLength =>
      have htrailing : d.flags.trailing = false := (inv_iff rfl).mp h
      have hphase : phase .invokeIsEqualContentLength d
        = if d.contentLength = 0 then .trailerName else .chunk := rfl
      by_cases hlast : d.contentLength = 0
      · refine fits_invoke (t := .invokeOrFlags) rfl rfl ?_ (inv_of_none rfl d) ?_
        · simp [isEqualContentLength, hlast, lookup]
        · rw [phase_eq (p := .trailerStart) rfl rfl, hphase, if_pos hlast]
          rfl
      · refine fits_invoke (t := .spanStartOnBody) rfl rfl ?_ ((inv_iff rfl).mpr htrailing) ?_
        · simp [isEqualContentLength, hlast, lookup]
        · rw [phase_eq (p := .chunk) rfl rfl, hphase, if_neg hlast]
          rfl
  | invokeOrFlags =>
      refine fits_invoke (t := .headerFieldStart) rfl rfl rfl (inv_of_none rfl _) ?_
      rw [phase_eq (p := .name) rfl rfl, phase_eq (p := .trailerStart) rfl rfl]
      rfl
  | invokeAfterMessageComplete =>
      -- all flags are cleared
      have hto : ∀ t, part t = .idle →
          lookup [(1, .invokeUpdateContentLength)] .invokeUpdateFinish1 d.afterMessageComplete.2 = t →
          grammar.Fits phase inv spend .invokeAfterMessageComplete d
            (node .invokeAfterMessageComplete) := by
        intro t hpart hlookup
        refine fits_invoke rfl rfl hlookup ((inv_iff (by rw [hpart]; rfl)).mpr rfl) ?_
        rw [phase_eq hpart rfl, phase_eq (p := .ended) rfl rfl]
        rfl
      cases hkeep : d.shouldKeepAlive with
      | true => exact hto .invokeUpdateContentLength rfl (by simp [afterMessageComplete, hkeep, lookup])
      | false => exact hto .invokeUpdateFinish1 rfl (by simp [afterMessageComplete, hkeep, lookup])
  | spanEndOnBody1 =>
      have htrailing : d.flags.trailing = false := (inv_iff rfl).mp h
      refine ⟨inv_of_none rfl d, ?_⟩
      rw [phase_eq (p := .messageEnd) rfl rfl, phase_eq (p := .fixed) rfl rfl, htrailing]
      rfl
  | invokeOnHeadersComplete1 =>
      have htrailing : d.flags.trailing = false := (inv_iff rfl).mp h
      refine ⟨(inv_iff rfl).mpr htrailing, ?_⟩
      have hphase : phase .invokeAfterHeadersComplete d = framing d.afterHeadersComplete.2 := rfl
      rw [phase_eq (p := .headEnd) rfl rfl, hphase]
      show framing _ ∈ [Phase.fixed, .empty, .chunked]
      unfold framing
      split <;> simp
  | invokeOnChunkHeader =>
      have htrailing : d.flags.trailing = false := (inv_iff rfl).mp h
      refine ⟨(inv_iff rfl).mpr htrailing, ?_⟩
      have hphase : phase .invokeIsEqualContentLength d
        = if d.contentLength = 0 then .trailerName else .chunk := rfl
      rw [phase_eq (p := .chunked) rfl rfl, hphase]
      show _ ∈ [Phase.chunk, .trailerName]
      split <;> simp
  | _ => cases hl

theorem plain_of_not_turns (l : Label) (h : turns l = false) : (part l).isPlain := by
  cases l <;> first | rfl | cases h

/-- **Every node keeps to its phase.** -/
theorem node_fits_grammar (l : Label) (d : Internal) (h : inv l d) :
    grammar.Fits phase inv spend l d (node l) := by
  cases hturns : turns l with
  | true => exact turn_fits hturns h
  | false =>
      have hok := nodeOk_or_turns l
      rw [hturns, Bool.false_or] at hok
      have hplain := plain_of_not_turns l hturns
      have hphase := phase_eq rfl hplain d
      by_cases hreport : ∃ r t, node l = .report r t
      · obtain ⟨r, t, hnode⟩ := hreport
        rw [hnode] at hok ⊢
        simp only [nodeOk, Bool.and_eq_true, decide_eq_true_eq] at hok
        obtain ⟨⟨hok, hframed⟩, hchunk⟩ := hok
        have hplain' : (part t).isPlain := by simp [Part.isPlain, hframed, hchunk]
        have hstep := List.all_eq_true.mp hok d.flags.trailing (by cases d.flags.trailing <;> simp)
        simp only [Bool.or_eq_true, Bool.not_eq_true', Bool.and_eq_true, decide_eq_true_eq] at hstep
        obtain ⟨hinv, hafter⟩ := hstep.resolve_left (by rw [show _ = true from h]; simp)
        refine ⟨hinv, ?_⟩
        show phase t d ∈ (phase l d).after r
        rw [hphase, phase_eq rfl hplain' d]
        exact hafter
      · -- the other nodes stay in their part
        have hstays : (node l).staysIn part (part l) := by
          unfold nodeOk at hok
          split at hok
          · case h_1 r t hnode => exact absurd ⟨r, t, hnode⟩ hreport
          · exact hok
        have hkeeps : (node l).Keeps (fun t d' => inv t d' ∧ phase t d' = phase l d) spend l d := by
          refine Node.keeps_of_staysIn hstays (node_frames l hturns) fun t d' ht hd' => ⟨?_, ?_⟩
          · have hinv : (part l).allows d.flags.trailing := h
            rw [inv, ht, hd']
            exact hinv
          · rw [phase_eq ht hplain, hd', hphase]
        unfold Grammar.Fits
        split
        · case h_1 r t hnode => exact absurd ⟨r, t, hnode⟩ hreport
        · exact hkeeps

theorem openSpan_phase (l : Label) (d : Internal) (k : Span) (h : openSpan l = some k) :
    k ∈ (phase l d).spans := by
  have hparts : (part l).isPlain ∧
      ∀ t : Bool, k ∈ ((part l).phase t).spans := by
    cases k with
    | body => cases l <;> cases h <;> decide
    | method | url | version | headerField | headerValue | chunkExtensionName
    | chunkExtensionValue =>
        simp only [part, h]
        decide
  rw [phase_eq rfl hparts.1]
  exact hparts.2 d.flags.trailing

def phases : Phases grammar scanner where
  phase := phase
  inv := inv
  node_ok := node_fits_grammar
  span_ok l d k _ h := openSpan_phase l d k h

theorem start_inPhase : start.InPhase phases .idle := by
  rintro _ ⟨⟩
  exact ⟨(inv_iff rfl).mpr rfl, rfl⟩

/-- **The order of the callbacks.** Whatever the input is, and however it is divided, llhttp calls
back the parts of messages in their order. -/
theorem callbacks_in_order (reads : List Bytes) :
    ∃ q, grammar.Accepts .idle (start.parse reads).1.flatten q := by
  obtain ⟨q, haccepts, -⟩ := parse_accepts start_inPhase reads
  exact ⟨q, haccepts⟩

end Rslinker.Internal
