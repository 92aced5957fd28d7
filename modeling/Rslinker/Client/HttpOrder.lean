import Rslinker.Client.HttpLink

set_option autoImplicit false

/-! # The order of what the HTTP channel writes

The parser hands out a request line, batches of headers and body data in different passes through the
loop, the writes take whatever the local socket accepts, and what the local service sends goes the
other way in between. `along` collects what happens in the passes of a loop. For any report in the
order of HTTP/1.x the loop has put one request line, then the batches, one blank line, and the body
data; the two flushes behind it write the rest, so that nothing is left when the relay starts.
-/

namespace Rslinker

/-! ## Reports in order

What is needed of llhttp's reports is little: method and URL are complete before the version is,
and the version before the first value of a header and before the headers are. It is a condition on
one run and not on all that llhttp could do, so it can be had from a grammar of its callbacks. -/

/-- llhttp reports the request line before anything else, its version last. -/
structure InOrder (cbs : List Callback) : Prop where
  line : ∀ done, done <+: cbs → .versionComplete ∈ done →
    .methodComplete ∈ done ∧ .urlComplete ∈ done
  headers : ∀ done, done <+: cbs → .headerValueComplete ∈ done ∨ .headersComplete ∈ done →
    .versionComplete ∈ done

theorem InOrder.of_front {cbs cbs' : List Callback} (h : InOrder cbs') (hfront : cbs <+: cbs') :
    InOrder cbs :=
  ⟨fun done hdone => h.line done (hdone.trans hfront),
    fun done hdone => h.headers done (hdone.trans hfront)⟩

/-- **The report of a head is in order**, whatever comes behind it. -/
theorem Head.Spelled.inOrder {head : Head} {report : List Callback} (h : head.Spelled report)
    (after : List Callback) : InOrder (report ++ after) := by
  -- a part of the callbacks is a part of the report, or contains it
  have hcut : ∀ done, done <+: report ++ after → report <+: done ∨ ∃ rest, report = done ++ rest := by
    rintro done ⟨more, hmore⟩
    rcases List.append_eq_append_iff.mp hmore with ⟨rest, hrest, -⟩ | ⟨rest, hrest, -⟩
    · exact Or.inr ⟨rest, hrest⟩
    · exact Or.inl ⟨rest, hrest.symm⟩
  obtain ⟨hm, hu, hv⟩ := h.line_mem
  constructor
  · intro done hdone hmem
    rcases hcut done hdone with hall | ⟨rest, hrest⟩
    · exact ⟨hall.subset hm, hall.subset hu⟩
    · rcases h.cut done rest hrest with ⟨hnot, -⟩ | ⟨hmethod, hurl, -⟩
      · exact absurd hmem hnot
      · rw [hrest, List.mem_append] at hm hu
        exact ⟨hm.resolve_right hmethod, hu.resolve_right hurl⟩
  · intro done hdone hmem
    rcases hcut done hdone with hall | ⟨rest, hrest⟩
    · exact hall.subset hv
    · rcases h.cut done rest hrest with ⟨-, hvalue, hcomplete⟩ | ⟨-, -, hversion⟩
      · exact absurd hmem (not_or.mpr ⟨hvalue, hcomplete⟩)
      · rw [hrest, List.mem_append] at hv
        exact hv.resolve_right hversion

theorem RequestParser.headers_of_onCallbacks {L : Llhttp} {p q : RequestParser L}
    {cbs : List Callback} (h : p.onCallbacks cbs = some q) (hnone : .headerValueComplete ∉ cbs) :
    q.headers = p.headers := by
  induction cbs generalizing p with
  | nil =>
      cases h
      rfl
  | cons cb cbs ih =>
      obtain ⟨r, hr, hq⟩ := Option.bind_eq_some_iff.mp h
      rw [List.mem_cons, not_or] at hnone
      rw [ih hq hnone.2]
      cases cb with
      | headerValueComplete => exact absurd rfl hnone.1
      | methodComplete | urlComplete | versionComplete | headersComplete | body =>
          cases hr
          rfl
      | url | method | version | headerField | headerValue =>
          obtain ⟨span, -, rfl⟩ := Option.map_eq_some_iff.mp hr
          rfl

namespace HttpChannel

variable {t : HttpSetup}

/-! ## What happens in the passes of a loop

The loop is a function on the list of its events, and what has happened in it has to be found along
this list: what the parser was behind each `execute`, what was called back, what came from the
local socket. All of these are one function, `along`, with different things to look for. -/

/-- What `f` finds in the passes of the loop, one after the other. -/
def along {α : Type} (t : HttpSetup) (f : HttpChannel t.llhttp → HttpEvent → List α) :
    HttpChannel t.llhttp → List HttpEvent → List α
  | _, [] => []
  | c, e :: es =>
      f c e ++
        match c.step t e with
        | .next c' => along t f c' es
        | _ => []

/-- The call of `execute` in a pass: the parser behind it. -/
def parserOf (c : HttpChannel t.llhttp) : HttpEvent → List (RequestParser t.llhttp)
  | .remote (.ok data) _ _ => ((c.requestParser.execute (c.remoteBuf ++ data)).map Prod.fst).toList
  | _ => []

/-- What llhttp calls back in a pass. -/
def reportOf (c : HttpChannel t.llhttp) : HttpEvent → List Callback
  | .remote (.ok data) _ _ => (t.llhttp.execute c.requestParser.parser (c.remoteBuf ++ data)).2.1
  | _ => []

/-- What is read from the local socket in a pass. -/
def pulledOf {L : Llhttp} (_ : HttpChannel L) : HttpEvent → Bytes
  | .local (.ok data) _ => data
  | _ => []

/-- The parser after each `execute` of the loop. -/
def parsers (t : HttpSetup) (events : List HttpEvent) : List (RequestParser t.llhttp) :=
  along t parserOf (new t.llhttp) events

/-- What llhttp calls back in the loop. -/
def reported (t : HttpSetup) (events : List HttpEvent) : List Callback :=
  along t reportOf (new t.llhttp) events

/-- What the loop reads from the local socket. -/
def pulled (t : HttpSetup) (events : List HttpEvent) : Bytes := along t pulledOf (new t.llhttp) events

section Along

variable {α : Type} {f : HttpChannel t.llhttp → HttpEvent → List α} {c c₁ c' : HttpChannel t.llhttp}
  {e : HttpEvent} {es events : List HttpEvent}

theorem along_next (hstep : c.step t e = .next c₁) :
    along t f c (e :: es) = f c e ++ along t f c₁ es := by
  simp only [along, hstep]

theorem along_done (hstep : c.step t e = .done c') : along t f c (e :: es) = f c e := by
  simp only [along, hstep, List.append_nil]

/-- Induction over a loop that is left by `break`: over the passes before the last one. -/
theorem done_induction {motive : HttpChannel t.llhttp → List HttpEvent → Prop}
    (last : ∀ c e es, c.step t e = .done c' → motive c (e :: es))
    (more : ∀ c e es c₁, c.step t e = .next c₁ → motive c₁ es → motive c (e :: es))
    (hdone : loop t c events = .done c') : motive c events := by
  induction events generalizing c with
  | nil => cases hdone
  | cons e es ih =>
      rw [loop] at hdone
      rcases hstep : c.step t e with c₁ | c₁ | err | _
      all_goals rw [hstep] at hdone
      · exact more c e es c₁ hstep (ih hdone)
      · cases hdone
        exact last c e es hstep
      all_goals cases hdone

/-- What is called back in the loop are the first of the callbacks for the reads. -/
theorem reported_begins {c : HttpChannel t.llhttp} (hbuf : c.remoteBuf = [])
    (events : List HttpEvent) :
    along t reportOf c events
      <+: (t.llhttp.parse c.requestParser.parser (reads events)).1.flatten := by
  induction events generalizing c with
  | nil => exact List.nil_prefix
  | cons e es ih =>
      rcases e with ⟨read, write⟩ | ⟨data | _, writeLine, writeHeaders⟩
      · -- the arm of the local socket leaves llhttp alone
        have hpost := local_post t c read write
        rcases hs : c.step t (.local read write) with c' | c' | err | _
        · rw [hs] at hpost
          rw [along_next hs, ← hpost.parser]
          exact ih (hpost.remoteBuf.trans hbuf)
        all_goals simp only [along, hs, reportOf, List.append_nil, List.nil_prefix]
      · have hreads : reads (.remote (.ok data) writeLine writeHeaders :: es) = data :: reads es := rfl
        have hreport : reportOf c (.remote (.ok data) writeLine writeHeaders)
            = (t.llhttp.execute c.requestParser.parser data).2.1 := by
          rw [reportOf, hbuf, List.nil_append]
        -- the report of this read comes first, whatever the loop does with it
        have hfirst : (t.llhttp.execute c.requestParser.parser data).2.1
            <+: (t.llhttp.parse c.requestParser.parser (data :: reads es)).1.flatten := by
          rcases hexec : t.llhttp.execute c.requestParser.parser data with ⟨state, cbs, _ | errno⟩
          · rw [Llhttp.parse_cons_ok hexec]
            exact List.prefix_append _ _
          · rw [Llhttp.parse_cons_error hexec]
            simp
        have hpost := remote_post t c data writeLine writeHeaders
        rw [hreads]
        rcases hs : c.step t (.remote (.ok data) writeLine writeHeaders) with c' | c' | err | _
        · rw [hs] at hpost
          obtain ⟨p, hexec, -, -, hparser, -, hbuf'⟩ := hpost
          rw [hbuf, List.nil_append] at hexec
          obtain ⟨cbs, hcbs, -⟩ := RequestParser.execute_eq_some hexec
          have hstate : c'.requestParser.parser = p.parser := by
            rw [hparser]
            rfl
          have hrest := ih hbuf'
          rw [hstate] at hrest
          rw [along_next hs, hreport, hcbs, Llhttp.parse_cons_ok hcbs, List.flatten_cons]
          exact (List.prefix_append_right_inj _).mpr hrest
        all_goals
          simp only [along, hs, hreport, List.append_nil]
          exact hfirst
      · simp only [along, reportOf, List.nil_append, reads, HttpEvent.data]
        rw [show c.step t (.remote .err writeLine writeHeaders) = .failed .io from rfl]
        exact List.nil_prefix

end Along

/-! ## What goes to the local service

The invariant between two passes says what the parser has collected and which of it has been sent.
A loop that is left by `break` has made some passes in which the headers were not complete, and one
more; the proof goes through the first ones by induction and looks at the last one separately. -/

/-- What holds between two passes when llhttp has called back `done`. -/
structure Between (c : HttpChannel t.llhttp) (done : List Callback) : Prop where
  buf : c.remoteBuf = []
  follows : c.requestParser.Follows done
  headers : c.requestParser.headers = []
  complete : ¬ c.requestParser.isHeaderComplete
  sent : c.isRequestLineSend = c.requestParser.version.isSome

theorem between_new (t : HttpSetup) : (new t.llhttp).Between (t := t) [] where
  buf := rfl
  follows := ⟨by simp [new, RequestParser.new], by simp [new, RequestParser.new],
    by simp [new, RequestParser.new]⟩
  headers := rfl
  complete := Bool.false_ne_true
  sent := rfl

section Step

variable {c c₁ c' : HttpChannel t.llhttp} {e : HttpEvent} {es events : List HttpEvent}
  {done : List Callback} {p : RequestParser t.llhttp} {data : Bytes}
  {writeLine writeHeaders : WriteBuf}

/-- The parser behind an `execute` has what has been reported so far. -/
theorem Between.execute (h : c.Between done)
    (hexec : c.requestParser.execute (c.remoteBuf ++ data) = some (p, 0)) {cbs : List Callback}
    (hcbs : reportOf c (.remote (.ok data) writeLine writeHeaders) = cbs) :
    p.Follows (done ++ cbs) ∧ (.headerValueComplete ∉ cbs → p.headers = []) ∧
      (p.isHeaderComplete → .headersComplete ∈ cbs) := by
  obtain ⟨q, hq, heq⟩ := Option.map_eq_some_iff.mp hexec
  obtain rfl : q = p := (Prod.mk.inj heq).1
  obtain ⟨hmethod, hurl, hversion⟩ := h.follows
  have hfollows : ({ c.requestParser with
      parser := (t.llhttp.execute c.requestParser.parser (c.remoteBuf ++ data)).1 } :
        RequestParser t.llhttp).Follows done := ⟨hmethod, hurl, hversion⟩
  rw [← hcbs]
  refine ⟨(hfollows.onCallbacks hq).1, fun hnone => ?_, fun hcomplete => ?_⟩
  · exact (RequestParser.headers_of_onCallbacks hq hnone).trans h.headers
  · exact ((RequestParser.complete_of_onCallbacks hq).mp hcomplete).resolve_left h.complete

/-- A parser that knows the version knows the request line, and before it does it has found neither
headers nor their end. -/
theorem Between.line (h : c.Between done)
    (hexec : c.requestParser.execute (c.remoteBuf ++ data) = some (p, 0)) {later : List Callback}
    (horder : InOrder (done ++ (reportOf c (.remote (.ok data) writeLine writeHeaders) ++ later))) :
    (p.version = none ∧ p.headers = [] ∧ ¬ p.isHeaderComplete) ∨
      ∃ method url version, p.method = some method ∧ p.url = some url ∧ p.version = some version := by
  obtain ⟨hfollows, hheaders, hcomplete⟩ := h.execute hexec rfl
  set cbs := reportOf c (.remote (.ok data) writeLine writeHeaders)
  have hfront : done ++ cbs <+: done ++ (cbs ++ later) := by
    rw [← List.append_assoc]
    exact List.prefix_append _ _
  cases hversion : p.version with
  | some version =>
      have hmem : .versionComplete ∈ done ++ cbs := hfollows.version.mp (by rw [hversion]; rfl)
      obtain ⟨hm, hu⟩ := horder.line _ hfront hmem
      obtain ⟨method, hmethod⟩ := Option.isSome_iff_exists.mp (hfollows.method.mpr hm)
      obtain ⟨url, hurl⟩ := Option.isSome_iff_exists.mp (hfollows.url.mpr hu)
      exact Or.inr ⟨method, url, version, hmethod, hurl, rfl⟩
  | none =>
      have hnot : .versionComplete ∉ done ++ cbs := by
        intro hmem
        have hsome := hfollows.version.mpr hmem
        rw [hversion] at hsome
        cases hsome
      have hnone : ∀ cb ∈ cbs, cb ≠ .headerValueComplete ∧ cb ≠ .headersComplete := by
        intro cb hcb
        constructor
        · rintro rfl
          exact hnot (horder.headers _ hfront (Or.inl (List.mem_append_right _ hcb)))
        · rintro rfl
          exact hnot (horder.headers _ hfront (Or.inr (List.mem_append_right _ hcb)))
      refine Or.inl ⟨rfl, hheaders fun hmem => (hnone _ hmem).1 rfl, fun hc => ?_⟩
      exact (hnone _ (hcomplete hc)).2 rfl

theorem between_local {read : ReadBuf} {write : WriteBuf} (h : c.Between done)
    (hstep : c.step t (.local read write) = .next c₁) :
    c₁.Between done ∧ c₁.isRequestLineSend = c.isRequestLineSend := by
  have hpost := local_post t c read write
  rw [hstep] at hpost
  obtain ⟨-, hparser, hsent, hbuf⟩ := hpost
  refine ⟨⟨hbuf.trans h.buf, ?_, ?_, ?_, ?_⟩, hsent⟩
  · rw [hparser]
    exact h.follows
  · rw [hparser]
    exact h.headers
  · rw [hparser]
    exact h.complete
  · rw [hsent, hparser]
    exact h.sent

theorem between_remote (h : c.Between done)
    (hstep : c.step t (.remote (.ok data) writeLine writeHeaders) = .next c₁) :
    ∃ p, c.requestParser.execute (c.remoteBuf ++ data) = some (p, 0) ∧ ¬ p.isHeaderComplete ∧
      c₁.Between (done ++ reportOf c (.remote (.ok data) writeLine writeHeaders)) ∧
      c₁.isRequestLineSend = (c.isRequestLineSend || p.version.isSome) := by
  have hpost := remote_post t c data writeLine writeHeaders
  rw [hstep] at hpost
  obtain ⟨p, hexec, hcomplete, -, hparser, hsent, hbuf⟩ := hpost
  obtain ⟨hfollows, -, -⟩ := h.execute hexec rfl
  obtain ⟨hmethod, hurl, hversion⟩ := hfollows
  refine ⟨p, hexec, hcomplete, ⟨hbuf, ?_, ?_, ?_, ?_⟩, hsent⟩
  · rw [hparser]
    exact ⟨hmethod, hurl, hversion⟩
  · rw [hparser]
    rfl
  · rw [hparser]
    exact hcomplete
  · -- a version that was known still is
    have hkeep : c.requestParser.version.isSome → p.version.isSome := fun hsome =>
      hversion.mpr (List.mem_append_left _ (h.follows.version.mp hsome))
    rw [hsent, h.sent, hparser, Bool.eq_iff_iff, Bool.or_eq_true]
    exact ⟨fun hor => hor.elim hkeep id, Or.inr⟩

theorem parserOf_eq (hexec : c.requestParser.execute (c.remoteBuf ++ data) = some (p, 0)) :
    parserOf c (.remote (.ok data) writeLine writeHeaders) = [p] := by
  simp only [parserOf, hexec, Option.map_some, Option.toList_some]

theorem putsOf_eq (hexec : c.requestParser.execute (c.remoteBuf ++ data) = some (p, 0)) :
    putsOf t c (.remote (.ok data) writeLine writeHeaders) = putsWith t c.isRequestLineSend p := by
  simp only [putsOf, hexec]

theorem puts_eq_along (t : HttpSetup) (c : HttpChannel t.llhttp) (events : List HttpEvent) :
    puts t c events = along t (putsOf t) c events := by
  induction events generalizing c with
  | nil => rfl
  | cons e es ih =>
      simp only [puts, along]
      rcases c.step t e with c₁ | c₁ | err | _
      · simp only [ih]
      all_goals rfl

/-- The first parser that knows the version, and the request line it has found. -/
def FirstLine (ps : List (RequestParser t.llhttp)) (method url version : Bytes) : Prop :=
  ∃ before p behind, ps = before ++ p :: behind ∧ (∀ q ∈ before, q.version = none) ∧
    p.method = some method ∧ p.url = some url ∧ p.version = some version

theorem FirstLine.cons {p : RequestParser t.llhttp} {ps : List (RequestParser t.llhttp)}
    {method url version : Bytes} (h : FirstLine ps method url version) (hp : p.version = none) :
    FirstLine (p :: ps) method url version := by
  obtain ⟨before, q, behind, rfl, hbefore, hq⟩ := h
  exact ⟨p :: before, q, behind, rfl, List.forall_mem_cons.mpr ⟨hp, hbefore⟩, hq⟩

/-- The pieces of the request line: none if it has been sent. -/
def LineOf (sent : Bool) (ps : List (RequestParser t.llhttp)) (line : List Put) : Prop :=
  (sent = true ∧ line = []) ∨ (sent = false ∧ ∃ method url version,
    FirstLine ps method url version ∧ line = [.requestLine method url version])

/-- The pieces that are put from here on: the request line if it has not been sent, the batches of
the headers, the blank line, and the body data of the last parser. -/
def Shaped (t : HttpSetup) (sent : Bool) (ps : List (RequestParser t.llhttp)) (pieces : List Put) :
    Prop :=
  ∃ last line, ps.getLast? = some last ∧ LineOf sent ps line ∧
    pieces = line ++ ps.flatMap (fun p => putHeaders t p.takeHeaders.1)
      ++ [.blank, .content last.takeBody.1]

/-- The pass with which the headers are complete. -/
theorem shaped_last (h : c.Between done) {later : List Callback}
    (horder : InOrder (done ++ (reportOf c (.remote (.ok data) writeLine writeHeaders) ++ later)))
    (hexec : c.requestParser.execute (c.remoteBuf ++ data) = some (p, 0))
    (hcomplete : p.isHeaderComplete) :
    Shaped t c.isRequestLineSend [p] (putsWith t c.isRequestLineSend p) := by
  rcases h.line hexec horder with ⟨-, -, hnot⟩ | ⟨method, url, version, hm, hu, hv⟩
  · exact absurd hcomplete hnot
  · have hend : putEnd p.isHeaderComplete p.bodyBuf = [.blank, .content p.takeBody.1] :=
      if_pos hcomplete
    have hheaders : [p].flatMap (fun p => putHeaders t p.takeHeaders.1) = putHeaders t p.headers := by
      simp [RequestParser.takeHeaders]
    refine ⟨p, putLine c.isRequestLineSend p.method p.url p.version, rfl, ?_, ?_⟩
    · cases hsent : c.isRequestLineSend with
      | true => exact Or.inl ⟨rfl, putLine_sent _ _ _⟩
      | false =>
          exact Or.inr ⟨rfl, method, url, version, ⟨[], p, [], rfl, by simp, hm, hu, hv⟩,
            by simp [hm, hu, hv, putLine]⟩
    · rw [putsWith, hend, hheaders]

/-- An earlier pass. -/
theorem shaped_more (h : c.Between done) {later : List Callback}
    (horder : InOrder (done ++ (reportOf c (.remote (.ok data) writeLine writeHeaders) ++ later)))
    (hexec : c.requestParser.execute (c.remoteBuf ++ data) = some (p, 0))
    (hcomplete : ¬ p.isHeaderComplete) {ps : List (RequestParser t.llhttp)} {pieces : List Put}
    (hrest : Shaped t (c.isRequestLineSend || p.version.isSome) ps pieces) :
    Shaped t c.isRequestLineSend (p :: ps) (putsWith t c.isRequestLineSend p ++ pieces) := by
  obtain ⟨last, line, hlast, hline, rfl⟩ := hrest
  have hlast' : (p :: ps).getLast? = some last := by
    rw [List.getLast?_cons, hlast]
    rfl
  have hend : putEnd p.isHeaderComplete p.bodyBuf = [] := if_neg hcomplete
  rcases h.line hexec horder with ⟨hversion, hheaders, -⟩ | ⟨method, url, version, hm, hu, hv⟩
  · -- nothing is put before the version is known
    have hnone : putsWith t c.isRequestLineSend p = [] := by
      rw [putsWith, hversion, putLine_none, hheaders, hend]
      rfl
    have hbatch : putHeaders t p.takeHeaders.1 = [] := by
      rw [RequestParser.takeHeaders, hheaders]
      rfl
    rw [hversion, Option.isSome_none, Bool.or_false] at hline
    refine ⟨last, line, hlast', ?_, ?_⟩
    · rcases hline with hsent | ⟨hsent, method, url, version, hfirst, hrest⟩
      · exact Or.inl hsent
      · exact Or.inr ⟨hsent, method, url, version, hfirst.cons hversion, hrest⟩
    · rw [hnone, List.nil_append, List.flatMap_cons, hbatch, List.nil_append]
  · -- the line is put in this pass, or has been put before; the next passes put none
    have hdone : line = [] := by
      rw [hv, Option.isSome_some, Bool.or_true] at hline
      rcases hline with ⟨-, hline⟩ | ⟨hfalse, -⟩
      · exact hline
      · cases hfalse
    refine ⟨last, putLine c.isRequestLineSend p.method p.url p.version, hlast', ?_, ?_⟩
    · cases hsent : c.isRequestLineSend with
      | true => exact Or.inl ⟨rfl, putLine_sent _ _ _⟩
      | false =>
          exact Or.inr ⟨rfl, method, url, version, ⟨[], p, ps, rfl, by simp, hm, hu, hv⟩,
            by simp [hm, hu, hv, putLine]⟩
    · rw [putsWith, hend, hdone, List.append_nil, List.flatMap_cons]
      simp only [List.nil_append, List.append_assoc]
      rfl

/-- **The loop puts one request line, the batches, one blank line and the body data**, in this
order. -/
theorem shaped_of_done (hdone : loop t c events = .done c') (h : c.Between done)
    (horder : InOrder (done ++ along t reportOf c events)) :
    Shaped t c.isRequestLineSend (along t parserOf c events) (puts t c events) := by
  refine done_induction (motive := fun c events => ∀ done, c.Between done →
    InOrder (done ++ along t reportOf c events) →
      Shaped t c.isRequestLineSend (along t parserOf c events) (puts t c events)) ?_ ?_ hdone
    done h horder
  · intro c e es hstep done h horder
    rw [puts_eq_along, along_done hstep, along_done hstep]
    rw [along_done hstep, ← List.append_nil (reportOf c e)] at horder
    rcases e with ⟨read, write⟩ | ⟨data | _, writeLine, writeHeaders⟩
    · have hpost := local_post t c read write
      rw [hstep] at hpost
      exact hpost.elim
    · -- only the arm of the remote socket breaks the loop
      have hpost := remote_post t c data writeLine writeHeaders
      rw [hstep] at hpost
      obtain ⟨p, hexec, hcomplete, -⟩ := hpost
      rw [parserOf_eq hexec, putsOf_eq hexec]
      exact shaped_last h horder hexec hcomplete
    · cases hstep
  · intro c e es c₁ hstep ih done h horder
    rw [puts_eq_along, along_next hstep, along_next hstep, ← puts_eq_along]
    rw [along_next hstep] at horder
    rcases e with ⟨read, write⟩ | ⟨data | _, writeLine, writeHeaders⟩
    · -- the arm of the local socket puts nothing and leaves the parser alone
      obtain ⟨hbetween, hsent⟩ := between_local h hstep
      rw [← hsent]
      exact ih done hbetween horder
    · obtain ⟨p, hexec, hcomplete, hbetween, hsent⟩ := between_remote h hstep
      rw [parserOf_eq hexec, putsOf_eq hexec]
      refine shaped_more h horder hexec hcomplete ?_
      rw [← hsent]
      rw [← List.append_assoc] at horder
      exact ih _ hbetween horder
    · cases hstep

end Step

/-! ## What goes to the remote peer

The other direction is simpler, as the loop only passes on what it reads. No part of the arm of the
remote socket touches this buffer. -/

/-- What has gone to the remote peer, or is in the buffer for it. -/
def back {L : Llhttp} (c : HttpChannel L) : Bytes := c.toRemote ++ c.localBuf

section Back

variable {L : Llhttp}

theorem writeLocal_back (c : HttpChannel L) (w : WriteBuf) :
    (c.writeLocal w).Post (fun c' => c'.back = c.back) fun _ => False := by
  rcases w with (_ | size) | _
  · trivial
  · rfl
  · trivial

theorem logRequest_back (logsInfo : Bool) (c : HttpChannel L) :
    (c.logRequest logsInfo).Post (fun c' => c'.back = c.back) fun _ => False :=
  (logRequest_post logsInfo c).imp (fun _ h => by rw [h]) fun _ => id

theorem parse_back (c : HttpChannel L) :
    c.parse.Post (fun c' => c'.back = c.back) fun _ => False := by
  refine (parse_post c).imp ?_ fun _ => id
  rintro _ ⟨p, -, rfl⟩
  rfl

theorem sendRequestLine_back (c : HttpChannel L) (w : WriteBuf) :
    (c.sendRequestLine w).Post (fun c' => c'.back = c.back) fun _ => False := by
  unfold sendRequestLine
  split
  · split
    · exact writeLocal_back _ w
    · trivial
  · rfl

theorem sendHeaders_back {t : HttpSetup} (c : HttpChannel t.llhttp) (w : WriteBuf) :
    (c.sendHeaders t w).Post (fun c' => c'.back = c.back) fun _ => False := by
  unfold sendHeaders
  simp only
  split
  · rfl
  · exact writeLocal_back _ w

theorem finishHeaders_back (c : HttpChannel L) :
    c.finishHeaders.Post (fun c' => c'.back = c.back) fun c' => c'.back = c.back := by
  unfold finishHeaders
  split
  · rfl
  · rfl

/-- A pass keeps what goes to the remote peer, and adds what it reads from the local socket. -/
theorem step_back (t : HttpSetup) (c : HttpChannel t.llhttp) (e : HttpEvent) :
    (c.step t e).Post (fun c' => c'.back = c.back ++ pulledOf c e)
      fun c' => c'.back = c.back ++ pulledOf c e := by
  rcases e with ⟨(_ | ⟨b, data⟩) | _, write⟩ | ⟨(_ | ⟨b, data⟩) | _, writeLine, writeHeaders⟩
  · trivial
  · rcases write with (_ | size) | _
    · trivial
    · -- a write takes its bytes from the front of `local_buf`
      show (c.toRemote ++ (c.localBuf ++ b :: data).take (size + 1))
        ++ (c.localBuf ++ b :: data).drop (size + 1) = c.toRemote ++ c.localBuf ++ b :: data
      rw [List.append_assoc, List.take_append_drop, List.append_assoc]
    · trivial
  · trivial
  · trivial
  · set c₁ : HttpChannel t.llhttp := { c with remoteBuf := c.remoteBuf ++ b :: data } with hc₁
    have hpulled :
        c.back ++ pulledOf c (.remote (.ok (b :: data)) writeLine writeHeaders) = c₁.back :=
      List.append_nil _
    rw [hpulled]
    show ((c₁.logRequest t.logsInfo).bind _).Post _ _
    refine (logRequest_back t.logsInfo c₁).bind fun c₂ h₂ => ?_
    refine (parse_back c₂).bind fun c₃ h₃ => ?_
    refine (sendRequestLine_back c₃ writeLine).bind fun c₄ h₄ => ?_
    refine (sendHeaders_back c₄ writeHeaders).bind fun c₅ h₅ => ?_
    have hsame : c₅.back = c₁.back := h₅.trans (h₄.trans (h₃.trans h₂))
    exact (finishHeaders_back c₅).imp (fun _ h => h.trans hsame) fun _ h => h.trans hsame
  · trivial

/-- **What the loop reads from the local socket** has gone to the remote peer, or is in the buffer. -/
theorem back_of_done {t : HttpSetup} {c c' : HttpChannel t.llhttp} {events : List HttpEvent}
    (hdone : loop t c events = .done c') : c'.back = c.back ++ along t pulledOf c events := by
  refine done_induction (motive := fun c events => c'.back = c.back ++ along t pulledOf c events)
    ?_ ?_ hdone
  · intro c e es hstep
    have hpost := step_back t c e
    rw [hstep] at hpost
    rw [along_done hstep]
    exact hpost
  · intro c e es c₁ hstep ih
    have hpost := step_back t c e
    rw [hstep] at hpost
    -- this pass comes before the others
    have hpost : c₁.back = c.back ++ pulledOf c e := hpost
    rw [ih, hpost, along_next hstep, List.append_assoc]

end Back

/-! ## The flushes

Behind the loop both buffers are written out before the raw relay starts. A write takes at least
one byte, so there are finitely many of them. -/

/-- The event belongs to one of the two loops that flush. -/
def RelayEvent.Flushes : RelayEvent → Prop
  | .flushLocal _ | .flushRemote _ => True
  | .toLocal _ | .toRemote _ => False

/-- The raw relay can start. -/
def Drained {L : Llhttp} (c : HttpChannel L) : Prop := c.overrideRemoteBuf = [] ∧ c.localBuf = []

section Flush

variable {L : Llhttp} {c c' : HttpChannel L} {act : RelayEvent} {acts : List RelayEvent}

theorem copied_of_flushes (h : ∀ act ∈ acts, act.Flushes) : copied acts = [] := by
  refine List.flatMap_eq_nil_iff.mpr fun act hact => ?_
  cases act with
  | flushLocal write => rfl
  | flushRemote write => rfl
  | toLocal data => exact (h _ hact).elim
  | toRemote data => exact (h _ hact).elim

/-- A flush keeps what goes to the remote peer, and shortens one of the buffers. -/
theorem flush_step (hflush : act.Flushes) (h : c.relay act = some c') :
    c'.back = c.back ∧ c'.overrideRemoteBuf.length + c'.localBuf.length
      < c.overrideRemoteBuf.length + c.localBuf.length := by
  cases act with
  | flushLocal write =>
      obtain ⟨hfull, h⟩ := Option.ite_none_left_eq_some.mp h
      have hpos := List.length_pos_iff.mpr hfull
      rcases write with (_ | size) | _
      · cases h
      · cases h
        refine ⟨rfl, ?_⟩
        show (c.overrideRemoteBuf.drop (size + 1)).length + c.localBuf.length < _
        rw [List.length_drop]
        omega
      · cases h
  | flushRemote write =>
      obtain ⟨⟨-, hfull⟩, h⟩ := Option.ite_none_right_eq_some.mp h
      have hpos := List.length_pos_iff.mpr hfull
      rcases write with (_ | size) | _
      · cases h
      · cases h
        constructor
        · show (c.toRemote ++ c.localBuf.take (size + 1)) ++ c.localBuf.drop (size + 1) = c.back
          rw [List.append_assoc, List.take_append_drop]
          rfl
        · show c.overrideRemoteBuf.length + (c.localBuf.drop (size + 1)).length < _
          rw [List.length_drop]
          omega
      · cases h
  | toLocal data => exact hflush.elim
  | toRemote data => exact hflush.elim

/-- As long as something is left, the next write that accepts a byte is a flush. -/
theorem flush_goes_on (hleft : ¬ c.Drained) (size : Nat) :
    ∃ act c', act.Flushes ∧ c.relay act = some c' ∧
      (act = .flushLocal (.ok (size + 1)) ∨ act = .flushRemote (.ok (size + 1))) := by
  by_cases hfull : c.overrideRemoteBuf = []
  · have hlocal : c.localBuf ≠ [] := fun hempty => hleft ⟨hfull, hempty⟩
    exact ⟨.flushRemote (.ok (size + 1)), _, trivial, if_pos ⟨hfull, hlocal⟩, Or.inr rfl⟩
  · exact ⟨.flushLocal (.ok (size + 1)), _, trivial, if_neg hfull, Or.inl rfl⟩

/-- **The flushes come to an end**: every write shortens what is left. -/
theorem flush_ends (hflush : ∀ act ∈ acts, act.Flushes) (h : run relay c acts = some c') :
    c'.back = c.back ∧ c'.overrideRemoteBuf.length + c'.localBuf.length + acts.length
      ≤ c.overrideRemoteBuf.length + c.localBuf.length := by
  induction acts generalizing c with
  | nil =>
      cases h
      exact ⟨rfl, Nat.le_refl _⟩
  | cons act acts ih =>
      obtain ⟨c₁, hact, hrest⟩ := run_cons.mp h
      obtain ⟨hback, hlt⟩ := flush_step (hflush act (by simp)) hact
      obtain ⟨hback', hle⟩ := ih (fun a ha => hflush a (by simp [ha])) hrest
      refine ⟨hback'.trans hback, ?_⟩
      rw [List.length_cons]
      omega

end Flush

/-! ## Both directions

The specification of the whole phase, in both directions, without the buffers: when the relay can
start, what has been written to either socket is a given text. The order of headers within a batch
is that of an iteration over a hash map, and any order is allowed. -/

/-- The line of a header, with the value that is due to it. -/
def headerLine (t : HttpSetup) (e : Bytes × Bytes) : Bytes := (Put.header (t.due e).1 (t.due e).2).bytes

/-- What the first phase has to write to the local socket and to the remote one: a request line that
the parser has found, a line for every entry of every batch that `take_headers` has returned, one
blank line and what `take_body` has returned; and what has been read from the local socket. -/
structure WellOrdered (t : HttpSetup) (events : List HttpEvent) (toLocal toRemote : Bytes) :
    Prop where
  toLocal : ∃ method url version, FirstLine (parsers t events) method url version ∧
    ∃ last, (parsers t events).getLast? = some last ∧
    ∃ entries : List (List (Bytes × Bytes)),
      List.Forall₂ List.Perm entries ((parsers t events).map fun p => p.takeHeaders.1) ∧
      toLocal = requestLine method url version ++ entries.flatten.flatMap (headerLine t) ++ [13, 10]
        ++ last.takeBody.1
  toRemote : toRemote = pulled t events

/-- The lines of the batches, in the order in which the maps are iterated. -/
theorem bytes_batches (hdistinct : Distinct t.override_)
    (hiter : ∀ headers, (t.iter headers).Perm headers) (ps : List (RequestParser t.llhttp)) :
    (ps.flatMap fun p => putHeaders t p.takeHeaders.1).flatMap Put.bytes
      = (ps.map fun p => t.iter p.takeHeaders.1).flatten.flatMap (headerLine t) := by
  have hvalue : t.overridden = t.due := HttpSetup.overridden_eq_due hdistinct
  have hbatch : ∀ headers : Headers, (putHeaders t headers).flatMap Put.bytes
      = (t.iter headers).flatMap (headerLine t) := by
    intro headers
    unfold putHeaders
    split
    · rename_i hempty
      rw [List.isEmpty_iff.mp hempty, (hiter []).eq_nil]
      rfl
    · rw [hvalue, List.flatMap_map]
      rfl
  induction ps with
  | nil => rfl
  | cons p ps ih =>
      rw [List.flatMap_cons, List.flatMap_append, hbatch, ih, List.map_cons, List.flatten_cons,
        List.flatMap_append]

/-- The flushes can always be brought to their end. -/
theorem flush_reaches {L : Llhttp} (c : HttpChannel L) :
    ∃ flushes c', (∀ act ∈ flushes, act.Flushes) ∧ run relay c flushes = some c' ∧ c'.Drained := by
  by_cases hdrained : c.Drained
  · exact ⟨[], c, by simp, rfl, hdrained⟩
  · obtain ⟨act, c₁, hflush, hact, -⟩ := flush_goes_on hdrained 0
    have hless := (flush_step hflush hact).2
    obtain ⟨flushes, c', hflushes, hrun, hend⟩ := flush_reaches c₁
    exact ⟨act :: flushes, c', List.forall_mem_cons.mpr ⟨hflush, hflushes⟩,
      run_cons.mpr ⟨c₁, hact, hrun⟩, hend⟩
termination_by c.overrideRemoteBuf.length + c.localBuf.length

end HttpChannel

namespace HttpLink

open Internal HttpChannel

/-- **llhttp reports in order**, up to the read that completes a head of HTTP/1.x and in whatever it
finds behind the head. -/
theorem reported_inOrder (link : HttpLink) {x tail : Bytes} {head : Head} {d : Internal}
    (h : ReadsHead x head d) {events : List HttpEvent} (hbrings : Brings events x tail) :
    InOrder (reported link.setup events) := by
  obtain ⟨after, hparses⟩ := link.parses h hbrings
  obtain ⟨report, hspelled, heq⟩ := hparses.spelled
  refine (hspelled.inOrder after).of_front ?_
  rw [← heq]
  exact reported_begins rfl events

def withBody : Head :=
  getHead [([72, 111, 115, 116], [120]),
    ([67, 111, 110, 116, 101, 110, 116, 45, 76, 101, 110, 103, 116, 104], [50])]

/-- The local service sends three bytes before this request comes; every write accepts a few bytes. -/
def interleaved : List HttpEvent :=
  [.local (.ok [1, 2, 3]) (.ok 1),
    .remote (.ok (withBody.bytes ++ [104, 105])) (.ok 4) (.ok 2)]

end HttpLink

end Rslinker
