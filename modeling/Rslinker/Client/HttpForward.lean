import Rslinker.Client.HttpOutput

set_option autoImplicit false

/-! # Forwarding a request that llhttp accepts

When the sockets work and llhttp accepts what the remote peer sends, the pieces that the loop puts
into its buffer are a function of llhttp's reports, one list of callbacks for each read
(`forwarded`). For the report of a request's head they are the request line, the lines of the
headers, batch by batch, the blank line, and the body data in the last report.

Which reads the loop makes and what comes from the local service in between does not matter for the
pieces, only what llhttp reports for each read. This is the link between the modules about the loop
and those about llhttp: the ones speak of pieces, the others of reports.
-/

namespace Rslinker

/-! ## Working sockets

Sockets that fail end the channel, and nothing is forwarded then. Where a request is said to be
forwarded the reads and writes return something, and what is left are the errors of llhttp and the
panics. -/

/-- The read returns bytes. -/
def ReadBuf.Works : ReadBuf → Prop
  | .ok (_ :: _) => True
  | _ => False

/-- The write accepts at least one byte. -/
def WriteBuf.Works : WriteBuf → Prop
  | .ok (_ + 1) => True
  | _ => False

def HttpEvent.Works : HttpEvent → Prop
  | .local read write => read.Works ∧ write.Works
  | .remote read writeLine writeHeaders => read.Works ∧ writeLine.Works ∧ writeHeaders.Works

/-- What is read from the remote peer. -/
def HttpEvent.data : HttpEvent → Option Bytes
  | .remote (.ok data) _ _ => some data
  | _ => none

def reads (events : List HttpEvent) : List Bytes := events.filterMap HttpEvent.data

namespace LoopStep

variable {L : Llhttp}

/-- No error has been returned. -/
def Unfailed : LoopStep L → Prop
  | .failed _ => False
  | _ => True

theorem Unfailed.bind {r : LoopStep L} {k : HttpChannel L → LoopStep L} (h : r.Unfailed)
    (hk : ∀ c, r = .next c → (k c).Unfailed) : (r.bind k).Unfailed := by
  cases r with
  | next c => exact hk c rfl
  | done c => trivial
  | failed e => exact h.elim
  | panicked => trivial

end LoopStep

namespace HttpChannel

theorem writeLocal_unfailed {L : Llhttp} (c : HttpChannel L) {w : WriteBuf} (hw : w.Works) :
    (c.writeLocal w).Unfailed := by
  rcases w with (_ | size) | _
  · exact hw.elim
  · trivial
  · exact hw.elim

theorem sendRequestLine_unfailed {L : Llhttp} (c : HttpChannel L) {w : WriteBuf} (hw : w.Works) :
    (c.sendRequestLine w).Unfailed := by
  unfold sendRequestLine
  split
  · split
    · exact writeLocal_unfailed _ hw
    · trivial
  · trivial

theorem sendHeaders_unfailed {t : HttpSetup} (c : HttpChannel t.llhttp) {w : WriteBuf}
    (hw : w.Works) : (c.sendHeaders t w).Unfailed := by
  unfold sendHeaders
  simp only
  split
  · trivial
  · exact writeLocal_unfailed _ hw

theorem finishHeaders_unfailed {L : Llhttp} (c : HttpChannel L) : c.finishHeaders.Unfailed := by
  unfold finishHeaders
  split
  · trivial
  · trivial

theorem parse_unfailed {L : Llhttp} {c : HttpChannel L}
    (h : (L.execute c.requestParser.parser c.remoteBuf).2.2 = 0) : c.parse.Unfailed := by
  unfold parse RequestParser.execute
  simp only [h]
  cases RequestParser.onCallbacks _ (L.execute c.requestParser.parser c.remoteBuf).2.1 <;> trivial

/-- A pass with working sockets and input that llhttp accepts returns no error. -/
theorem step_unfailed {t : HttpSetup} {c : HttpChannel t.llhttp} {e : HttpEvent} (he : e.Works)
    (haccept : ∀ data ∈ e.data,
      (t.llhttp.execute c.requestParser.parser (c.remoteBuf ++ data)).2.2 = 0) :
    (c.step t e).Unfailed := by
  rcases e with ⟨(_ | ⟨b, data⟩) | _, write⟩ | ⟨(_ | ⟨b, data⟩) | _, writeLine, writeHeaders⟩
  · exact he.1.elim
  · rcases write with (_ | size) | _
    · exact he.2.elim
    · trivial
    · exact he.2.elim
  · exact he.1.elim
  · exact he.1.elim
  · obtain ⟨-, hline, hheaders⟩ := he
    set c₁ : HttpChannel t.llhttp := { c with remoteBuf := c.remoteBuf ++ b :: data } with hc₁
    have hexec : (t.llhttp.execute c₁.requestParser.parser c₁.remoteBuf).2.2 = 0 :=
      haccept _ rfl
    show ((c₁.logRequest t.logsInfo).bind _).Unfailed
    have hlog : (c₁.logRequest t.logsInfo).Unfailed := by
      unfold logRequest
      split
      · split <;> trivial
      · trivial
    refine hlog.bind fun c₂ hc₂ => ?_
    have hsame := logRequest_post t.logsInfo c₁
    rw [hc₂] at hsame
    cases hsame
    exact (parse_unfailed hexec).bind fun c₂ _ =>
      (sendRequestLine_unfailed c₂ hline).bind fun c₃ _ =>
      (sendHeaders_unfailed c₃ hheaders).bind fun c₄ _ => finishHeaders_unfailed c₄
  · exact he.1.elim

end HttpChannel

/-! ## The pieces as a function of the reports

`Tally` is what the parser has collected. The loop keeps it, drains the headers and the body in
every pass, and puts pieces for what it finds. So the pieces of a read are a function of the tally
before it and of what llhttp reports for this read, and those of a whole run are a function of all
reports. -/

/-- What is put into the buffer when llhttp reports this for one read after the other. -/
def forwarded (t : HttpSetup) : Tally → List (List Callback) → List Put
  | _, [] => []
  | s, cbs :: reports =>
      let s' := s.addAll cbs
      putLine s.version.isSome s'.method s'.url s'.version
        ++ putHeaders t (collect (s'.fields.drop s.fields.length))
        ++ putEnd s'.complete s'.body
        ++ if s'.complete then [] else forwarded t s' reports

namespace HttpChannel

/-- The channel has put what belongs to the tally `s`. -/
structure At {t : HttpSetup} (c : HttpChannel t.llhttp) (s : Tally) : Prop where
  waiting : c.Waiting
  tallies : c.requestParser.Tallies s s.fields.length
  sent : c.isRequestLineSend = s.version.isSome

theorem at_new (t : HttpSetup) : (new t.llhttp).At (t := t) .empty :=
  ⟨waiting_new _, RequestParser.tallies_new _, rfl⟩

variable {t : HttpSetup} {c : HttpChannel t.llhttp} {s : Tally}

theorem step_local (h : c.At s) {read : ReadBuf} {write : WriteBuf}
    (he : (HttpEvent.local read write).Works) :
    ∃ c', c.step t (.local read write) = .next c' ∧ c'.At s ∧
      c'.requestParser.parser = c.requestParser.parser := by
  have hpost := local_post t c read write
  have hok : (c.step t (.local read write)).Unfailed := step_unfailed he (fun _ hd => nomatch hd)
  have hsafe : (c.step t (.local read write)).Safe Waiting := local_safe h.waiting read write
  rcases hs : c.step t (.local read write) with c' | c' | err | _
  · rw [hs] at hpost hsafe
    refine ⟨c', rfl, ⟨hsafe, ?_, ?_⟩, ?_⟩
    · rw [hpost.parser]
      exact h.tallies
    · rw [hpost.sent, h.sent]
    · rw [hpost.parser]
  · rw [hs] at hpost
    exact hpost.elim
  · rw [hs] at hok
    exact hok.elim
  · rw [hs] at hsafe
    exact hsafe.elim

/-- The parser behind a read has counted up the report. -/
theorem At.execute (h : c.At s) {data : Bytes} {state : t.llhttp.State} {cbs : List Callback}
    (hexec : t.llhttp.execute c.requestParser.parser data = (state, cbs, 0))
    {p : RequestParser t.llhttp} (hp : c.requestParser.execute data = some (p, 0)) :
    p.Tallies (s.addAll cbs) s.fields.length ∧ p.parser = state := by
  simp only [RequestParser.execute, hexec] at hp
  obtain ⟨q, hq, heq⟩ := Option.map_eq_some_iff.mp hp
  cases heq
  have htallies : ({ c.requestParser with parser := state } : RequestParser t.llhttp).Tallies s
      s.fields.length := by
    obtain ⟨h₁, h₂, h₃, h₄, h₅, h₆, h₇, h₈, h₉, h₁₀, h₁₁, h₁₂⟩ := h.tallies
    exact ⟨h₁, h₂, h₃, h₄, h₅, h₆, h₇, h₈, h₉, h₁₀, h₁₁, h₁₂⟩
  exact ⟨htallies.onCallbacks hq, RequestParser.parser_of_onCallbacks hq⟩

/-- What is put for a read, when the parser behind it is known. -/
theorem At.putsOf (h : c.At s) {data : Bytes} {writeLine writeHeaders : WriteBuf}
    {p : RequestParser t.llhttp} {s' : Tally} (hp : c.requestParser.execute data = some (p, 0))
    (htallies : p.Tallies s' s.fields.length) :
    HttpChannel.putsOf t c (.remote (.ok data) writeLine writeHeaders)
      = putLine s.version.isSome s'.method s'.url s'.version
        ++ putHeaders t (collect (s'.fields.drop s.fields.length)) ++ putEnd s'.complete s'.body := by
  simp only [HttpChannel.putsOf, h.waiting.1, List.nil_append, hp, putsWith]
  rw [htallies.method, htallies.url, htallies.version, htallies.headers, htallies.complete,
    htallies.body, h.sent]

/-- A read of the remote socket, for which llhttp reports `cbs`. -/
theorem step_remote (hL : t.llhttp.Documented) (h : c.At s) {data : Bytes}
    {writeLine writeHeaders : WriteBuf}
    (he : (HttpEvent.remote (.ok data) writeLine writeHeaders).Works)
    (hread : Readable t c (.remote (.ok data) writeLine writeHeaders)) {state : t.llhttp.State}
    {cbs : List Callback} (hexec : t.llhttp.execute c.requestParser.parser data = (state, cbs, 0)) :
    (putsOf t c (.remote (.ok data) writeLine writeHeaders)
      = putLine s.version.isSome (s.addAll cbs).method (s.addAll cbs).url (s.addAll cbs).version
        ++ putHeaders t (collect ((s.addAll cbs).fields.drop s.fields.length))
        ++ putEnd (s.addAll cbs).complete (s.addAll cbs).body) ∧
    ((s.addAll cbs).complete → ∃ c',
      c.step t (.remote (.ok data) writeLine writeHeaders) = .done c') ∧
    (¬ (s.addAll cbs).complete → ∃ c',
      c.step t (.remote (.ok data) writeLine writeHeaders) = .next c' ∧ c'.At (s.addAll cbs) ∧
        c'.requestParser.parser = state) := by
  have hbuf : c.remoteBuf ++ data = data := by
    rw [h.waiting.1, List.nil_append]
  have hpost := remote_post t c data writeLine writeHeaders
  have hsafe := step_safe hL h.waiting hread
  have hok : (c.step t (.remote (.ok data) writeLine writeHeaders)).Unfailed := by
    refine step_unfailed he fun d hd => ?_
    cases hd
    rw [hbuf, hexec]
  rw [hbuf] at hpost
  rcases hs : c.step t (.remote (.ok data) writeLine writeHeaders) with c' | c' | err | _
  · rw [hs] at hpost hsafe
    obtain ⟨p, hp, hcomplete, -, hc', hsent, -⟩ := hpost
    obtain ⟨htallies, hstate⟩ := h.execute hexec hp
    rw [htallies.complete] at hcomplete
    refine ⟨h.putsOf hp htallies, fun hc => absurd hc hcomplete, fun _ =>
      ⟨c', rfl, ⟨hsafe, ?_, ?_⟩, ?_⟩⟩
    · rw [hc']
      exact htallies.takeHeaders
    · -- a version that was known still is
      rw [hsent, h.sent, htallies.version, Bool.eq_iff_iff, Bool.or_eq_true, Tally.version_addAll]
      tauto
    · rw [hc']
      exact hstate
  · rw [hs] at hpost
    obtain ⟨p, hp, hcomplete, -⟩ := hpost
    have htallies := (h.execute hexec hp).1
    rw [htallies.complete] at hcomplete
    exact ⟨h.putsOf hp htallies, fun _ => ⟨c', rfl⟩, fun hc => absurd hcomplete hc⟩
  · rw [hs] at hok
    exact hok.elim
  · rw [hs] at hsafe
    exact hsafe.elim

/-- **The loop forwards what llhttp reports.** -/
theorem loop_forwards (hL : t.llhttp.Documented) {events : List HttpEvent}
    {reports : List (List Callback)} (h : c.At s) (hworks : ∀ e ∈ events, e.Works)
    (hparse : t.llhttp.parse c.requestParser.parser (reads events) = (reports, 0))
    (hread : StepsMeet (advance t) (Readable t) c events) (hbefore : ¬ s.complete)
    (hcomplete : (s.addAll reports.flatten).complete) :
    (∃ c', loop t c events = .done c') ∧ puts t c events = forwarded t s reports := by
  induction events generalizing c s reports with
  | nil =>
      cases hparse
      exact absurd hcomplete hbefore
  | cons e es ih =>
      have he := hworks e (by simp)
      have hes : ∀ e ∈ es, e.Works := fun e he => hworks e (by simp [he])
      rcases e with ⟨read, write⟩ | ⟨data | _, writeLine, writeHeaders⟩
      · obtain ⟨c', hstep, hat, hparser⟩ := step_local h he
        rw [← hparser] at hparse
        have hrest := hread.2 c' (by simp [advance, hstep])
        obtain ⟨hloop, hputs⟩ := ih hat hes hparse hrest hbefore hcomplete
        refine ⟨?_, ?_⟩
        · simpa only [loop, hstep, LoopStep.bind] using hloop
        · simpa only [puts, hstep, putsOf, List.nil_append] using hputs
      · rcases hexec : t.llhttp.execute c.requestParser.parser data with ⟨state, cbs, errno⟩
        have hparse' : t.llhttp.parse c.requestParser.parser (data :: reads es) = (reports, 0) := hparse
        rcases errno with _ | errno
        · obtain ⟨later, hrest, rfl⟩ : ∃ later,
              t.llhttp.parse state (reads es) = (later, 0) ∧ reports = cbs :: later := by
            rw [Llhttp.parse_cons_ok hexec, Prod.mk.injEq] at hparse'
            exact ⟨_, Prod.ext rfl hparse'.2, hparse'.1.symm⟩
          obtain ⟨hputs, hdone, hnext⟩ := step_remote hL h he hread.1 hexec
          rw [List.flatten_cons, Tally.addAll_append] at hcomplete
          by_cases hnow : (s.addAll cbs).complete
          · -- the loop is left with this read
            obtain ⟨c', hstep⟩ := hdone hnow
            refine ⟨⟨c', by simp only [loop, hstep, LoopStep.bind]⟩, ?_⟩
            simp only [puts, hstep, hputs, forwarded, hnow, if_true]
          · obtain ⟨c', hstep, hat, hparser⟩ := hnext hnow
            rw [← hparser] at hrest
            obtain ⟨hloop, hlater⟩ :=
              ih hat hes hrest (hread.2 c' (by simp [advance, hstep])) hnow hcomplete
            refine ⟨?_, ?_⟩
            · simpa only [loop, hstep, LoopStep.bind] using hloop
            · simp only [puts, hstep, hputs, forwarded, hlater, if_neg hnow]
        · rw [Llhttp.parse_cons_error hexec] at hparse'
          cases hparse'
      · exact he.1.elim

theorem not_mem_later {α : Type*} {a : α} {r : List α} {rs : List (List α)}
    (h : a ∉ (r :: rs).dropLast.flatten) : a ∉ rs.dropLast.flatten := by
  intro hmem
  obtain ⟨l, hl, ha⟩ := List.mem_flatten.mp hmem
  refine h (List.mem_flatten_of_mem ?_ ha)
  rw [List.dropLast_cons_of_ne_nil (List.ne_nil_of_mem (List.mem_of_mem_dropLast hl))]
  exact List.mem_cons_of_mem _ hl

/-- The loop is only left when llhttp has returned no error. -/
theorem errno_of_done {events : List HttpEvent} {reports : List (List Callback)} {errno : Nat}
    (hbuf : c.remoteBuf = []) (hnot : ¬ c.requestParser.isHeaderComplete)
    (hparse : t.llhttp.parse c.requestParser.parser (reads events) = (reports, errno))
    (hlast : .headersComplete ∉ reports.dropLast.flatten) {c' : HttpChannel t.llhttp}
    (hdone : loop t c events = .done c') : errno = 0 := by
  induction events generalizing c reports with
  | nil => cases hdone
  | cons e es ih =>
      rw [loop] at hdone
      rcases e with ⟨read, write⟩ | ⟨data | _, writeLine, writeHeaders⟩
      · have hpost := local_post t c read write
        rcases hs : c.step t (.local read write) with c₁ | c₁ | err | _
        all_goals rw [hs] at hdone hpost
        · refine ih (hpost.remoteBuf.trans hbuf) ?_ ?_ hlast hdone
          · rwa [hpost.parser]
          · rwa [hpost.parser]
        · exact hpost.elim
        all_goals cases hdone
      · have hpost := remote_post t c data writeLine writeHeaders
        rw [hbuf, List.nil_append] at hpost
        have hparse' : t.llhttp.parse c.requestParser.parser (data :: reads es) = (reports, errno) :=
          hparse
        rcases hs : c.step t (.remote (.ok data) writeLine writeHeaders) with c₁ | c₁ | err | _
        all_goals rw [hs] at hdone hpost
        · obtain ⟨p, hexec, hcomplete, -, hparser, -, hbuf'⟩ := hpost
          obtain ⟨cbs, hcbs, -⟩ := RequestParser.execute_eq_some hexec
          simp only [Llhttp.parse, hcbs, Prod.mk.injEq] at hparse'
          obtain ⟨rfl, herrno⟩ := hparse'
          have hstate : c₁.requestParser.parser = p.parser := by
            rw [hparser]
            rfl
          refine ih hbuf' ?_ (Prod.ext rfl ?_) ?_ hdone
          · rw [hparser]
            exact hcomplete
          · rw [hstate]
            exact herrno
          · rw [hstate]
            exact not_mem_later hlast
        · -- the headers are complete with this read, so there is no other
          obtain ⟨p, hexec, hcomplete, -⟩ := hpost
          obtain ⟨cbs, hcbs, hiff⟩ := RequestParser.execute_eq_some hexec
          simp only [Llhttp.parse, hcbs, Prod.mk.injEq] at hparse'
          obtain ⟨rfl, herrno⟩ := hparse'
          have hmem : .headersComplete ∈ cbs := (hiff.mp hcomplete).resolve_left hnot
          rw [← herrno]
          refine Llhttp.parse_nil ?_
          rcases hrest : (t.llhttp.parse p.parser (reads es)).1 with _ | ⟨cbs', reports⟩
          · rfl
          · rw [hrest] at hlast
            exact absurd (List.mem_flatten_of_mem (List.mem_cons_self ..) hmem) hlast
        all_goals cases hdone
      · cases hdone

end HttpChannel

/-! ## The report of a head

When the reads bring a head, with whatever behind it, the pieces are a request line, lines of headers,
the blank line and body data. Behind the read in which the version is complete the request line has
been put, and what is reported later does not change it; but when this is the last read, a request
behind the head may have taken its place (`LineKept`). The lines of the headers are the entries of the
maps, one map for each read. -/

theorem putHeaders_nil (t : HttpSetup) : putHeaders t [] = [] := rfl

section Spelled

variable {head : Head} {report after done cbs : List Callback} {s : Tally} {n : Nat}

theorem isSome_version_addAll (done : List Callback) :
    (Tally.empty.addAll done).version.isSome = decide (.versionComplete ∈ done) := by
  rw [Bool.eq_iff_iff, Tally.version_addAll, decide_eq_true_iff]
  exact or_iff_right Bool.false_ne_true

theorem length_fields_addAll (done : List Callback) :
    (Tally.empty.addAll done).fields.length = done.count .headerValueComplete := by
  obtain ⟨fields, hfields, hlength⟩ := Tally.fields_addAll .empty done
  rw [hfields, ← hlength]
  rfl

/-- The fields that a read completes are its batch. -/
theorem fields_of_read (done cbs later : List Callback) :
    (Tally.empty.addAll (done ++ cbs)).fields.drop (done.count .headerValueComplete)
      = ((Tally.empty.addAll (done ++ (cbs ++ later))).fields.drop
          (done.count .headerValueComplete)).take (cbs.count .headerValueComplete) := by
  obtain ⟨more, hmore, -⟩ := Tally.fields_addAll (Tally.empty.addAll (done ++ cbs)) later
  have hlength := length_fields_addAll (done ++ cbs)
  rw [List.count_append] at hlength
  rw [← Tally.addAll_append, List.append_assoc] at hmore
  rw [hmore, List.drop_append_of_le_length, List.take_append_of_le_length, List.take_of_length_le]
  all_goals
    try rw [List.length_drop]
    omega

/-- When the version of a part of a report is complete, its request line is. Otherwise it has no
fields. -/
theorem Head.Progress.line_cases (h : head.Progress (Tally.empty.addAll done) n) :
    (.versionComplete ∉ done ∧ (Tally.empty.addAll done).version = none ∧
      (Tally.empty.addAll done).fields = []) ∨
    (.versionComplete ∈ done ∧ (Tally.empty.addAll done).method = some head.method ∧
      (Tally.empty.addAll done).url = some head.url ∧
      (Tally.empty.addAll done).version = some head.version) := by
  have hsome := isSome_version_addAll done
  rcases h.line with ⟨hversion, hfields⟩ | ⟨hm, hu, hv⟩
  · rw [hversion] at hsome
    exact Or.inl ⟨of_decide_eq_false hsome.symm, hversion, hfields⟩
  · rw [hv] at hsome
    exact Or.inr ⟨of_decide_eq_true hsome.symm, hm, hu, hv⟩

/-- The pieces of the last read. -/
theorem forwarded_last (t : HttpSetup) (hspelled : head.Spelled report)
    (htotal : done ++ cbs = report ++ after) (hs : Tally.empty.addAll (report ++ after) = s) :
    forwarded t (Tally.empty.addAll done) [cbs]
      = (if .versionComplete ∈ done then [] else putLine false s.method s.url s.version)
        ++ putHeaders t (collect (s.fields.drop (done.count .headerValueComplete)))
        ++ [.blank, .content (bodyData after)] := by
  have hcomplete : s.complete := by
    rw [← hs, Tally.complete_addAll]
    exact Or.inr (List.mem_append_left _ hspelled.complete_mem)
  have hbody : s.body = bodyData after := by
    rw [← hs, Tally.addAll_append, Tally.body_addAll, hspelled.tally, List.nil_append]
  simp only [forwarded, ← Tally.addAll_append, length_fields_addAll, isSome_version_addAll, htotal, hs,
    hcomplete, hbody, putEnd]
  by_cases hversion : .versionComplete ∈ done
  · simp [hversion, putLine_sent]
  · simp [hversion]

/-- **The pieces of a head.** -/
theorem forwarded_spelled (t : HttpSetup) {reports : List (List Callback)}
    (hspelled : head.Spelled report) (heq : done ++ reports.flatten = report ++ after)
    (hlast : .headersComplete ∉ done ++ reports.dropLast.flatten)
    (hs : Tally.empty.addAll (report ++ after) = s) :
    forwarded t (Tally.empty.addAll done) reports
      = (if .versionComplete ∈ done then []
          else if .versionComplete ∈ reports.dropLast.flatten then
            [.requestLine head.method head.url head.version]
          else putLine false s.method s.url s.version)
        ++ (batches (s.fields.drop (done.count .headerValueComplete)) reports).flatMap
            (fun batch => putHeaders t (collect batch))
        ++ [.blank, .content (bodyData after)] := by
  induction reports generalizing done with
  | nil =>
      rw [List.dropLast_nil, heq] at hlast
      simp [hspelled.complete_mem] at hlast
  | cons cbs reports ih =>
      have hbatch := fields_of_read done cbs reports.flatten
      rw [← List.flatten_cons, heq, hs] at hbatch
      rcases reports with _ | ⟨cbs', reports⟩
      · -- the last read: the tally is that of everything
        have htotal : done ++ cbs = report ++ after := by simpa using heq
        rw [htotal, hs] at hbatch
        rw [forwarded_last t hspelled htotal hs, batches, ← hbatch]
        simp [batches]
      · have hmore : (done ++ cbs) ++ (cbs' :: reports).flatten = report ++ after := by
          rw [← heq, List.flatten_cons (l := cbs), List.append_assoc]
        have hlast' : .headersComplete ∉ (done ++ cbs) ++ (cbs' :: reports).dropLast.flatten := by
          simpa [List.dropLast] using hlast
        have hnow : .headersComplete ∉ done ++ cbs := fun hmem =>
          hlast' (List.mem_append_left _ hmem)
        obtain ⟨rest, hrest⟩ := hspelled.begins hmore hnow
        have hpart := (hrest ▸ hspelled : head.Spelled ((done ++ cbs) ++ rest)).progress
        have hcomplete : ¬ (Tally.empty.addAll (done ++ cbs)).complete := by
          rw [Tally.complete_addAll]
          simpa [Tally.empty] using hnow
        have ih' := ih hmore hlast'
        rw [List.count_append, ← List.drop_drop] at ih'
        rw [forwarded]
        simp only [← Tally.addAll_append, length_fields_addAll, isSome_version_addAll, hbatch,
          hcomplete, putEnd, if_false, List.append_nil, Bool.false_eq_true]
        rw [ih', batches.eq_2 _ cbs, List.flatMap_cons, List.dropLast_cons_cons, List.flatten_cons]
        rcases hpart.line_cases with ⟨hnot, hversion, hfields⟩ | ⟨hmem, hm, hu, hv⟩
        · -- the version is not known yet, so there are no fields either
          rw [List.mem_append, not_or] at hnot
          rw [← hbatch, hfields, List.drop_nil, show collect [] = [] from rfl, putHeaders_nil, hversion,
            putLine_none]
          simp [hnot.1, hnot.2]
        · -- the request line is put in this read, or has been put before
          rw [hm, hu, hv, if_pos hmem]
          by_cases hversion : .versionComplete ∈ done
          · simp [hversion, putLine_sent]
          · simp [hversion, (List.mem_append.mp hmem).resolve_left hversion, putLine]

end Spelled

/-- The lines of these headers. -/
def asLines (lines : List (Bytes × Bytes)) : List Put := lines.map fun e => .header e.1 e.2

theorem asLines_append (lines lines' : List (Bytes × Bytes)) :
    asLines (lines ++ lines') = asLines lines ++ asLines lines' := List.map_append

theorem asLines_injective {lines lines' : List (Bytes × Bytes)} (h : asLines lines = asLines lines') :
    lines = lines' := by
  refine List.map_injective_iff.mpr ?_ h
  rintro ⟨name, value⟩ ⟨name', value'⟩ heq
  cases heq
  rfl

/-- A drained map gives one line for each of its entries. -/
theorem putHeaders_asLines {t : HttpSetup} (hiter : ∀ headers, (t.iter headers).Perm headers)
    (headers : Headers) :
    ∃ lines, putHeaders t headers = asLines lines ∧ lines.Perm (headers.map t.overridden) := by
  unfold putHeaders
  split
  · rename_i hempty
    rw [List.isEmpty_iff.mp hempty]
    exact ⟨[], rfl, .nil⟩
  · exact ⟨(t.iter headers).map t.overridden, by simp [asLines], (hiter headers).map t.overridden⟩

theorem flatMap_putHeaders_asLines {t : HttpSetup}
    (hiter : ∀ headers, (t.iter headers).Perm headers) (batches : List (List (Bytes × Bytes))) :
    ∃ lines, batches.flatMap (fun batch => putHeaders t (collect batch)) = asLines lines ∧
      lines.Perm ((batches.flatMap collect).map t.overridden) := by
  induction batches with
  | nil => exact ⟨[], rfl, .nil⟩
  | cons batch batches ih =>
      obtain ⟨lines, hlines, hperm⟩ := putHeaders_asLines hiter (collect batch)
      obtain ⟨more, hmore, hperm'⟩ := ih
      refine ⟨lines ++ more, by rw [List.flatMap_cons, hlines, hmore, asLines_append], ?_⟩
      rw [List.flatMap_cons, List.map_append]
      exact hperm.append hperm'

/-- The request line of the head is complete before its last read, or what llhttp reports there has
the same method, URL and version in the end. -/
def LineKept (head : Head) (reports : List (List Callback)) : Prop :=
  .versionComplete ∈ reports.dropLast.flatten ∨
    (Tally.empty.addAll reports.flatten).method = some head.method ∧
      (Tally.empty.addAll reports.flatten).url = some head.url ∧
      (Tally.empty.addAll reports.flatten).version = some head.version

/-- The entries of the maps. The last one has the fields behind the head, too. -/
def entries (head : Head) (reports : List (List Callback)) : List (Bytes × Bytes) :=
  (batches head.fields reports.dropLast).flatMap collect
    ++ collect (lateFields head reports ++ fieldsBehind head reports)

/-- **What is put for a head**: one request line, the entries of the maps, the blank line and the body
data behind the head. The request line is that of the head exactly when it is kept. -/
theorem Llhttp.Parses.forwarded_shape {t : HttpSetup}
    (hiter : ∀ headers, (t.iter headers).Perm headers) {reads : List Bytes} {head : Head}
    {reports : List (List Callback)} {after : List Callback} {errno : Nat}
    (h : t.llhttp.Parses reads head reports after errno) :
    ∃ method url version lines,
      forwarded t .empty reports = .requestLine method url version ::
        (asLines lines ++ [.blank, .content (bodyData after)]) ∧
      lines.Perm ((entries head reports).map t.overridden) ∧
      (method = head.method ∧ url = head.url ∧ version = head.version ↔ LineKept head reports) := by
  obtain ⟨report, hspelled, heq⟩ := h.spelled
  have heq' : [] ++ reports.flatten = report ++ after := heq
  have hshape := forwarded_spelled t hspelled heq' h.last rfl
  rw [← heq] at hshape
  simp only [List.not_mem_nil, if_false, List.count_nil, List.drop_zero, Tally.addAll_nil] at hshape
  rw [h.batches_eq.1] at hshape
  obtain ⟨lines, hlines, hperm⟩ := flatMap_putHeaders_asLines hiter
    (batches head.fields reports.dropLast ++ [lateFields head reports ++ fieldsBehind head reports])
  rw [hlines] at hshape
  have hentries : (batches head.fields reports.dropLast
      ++ [lateFields head reports ++ fieldsBehind head reports]).flatMap collect
        = entries head reports := by
    simp [entries]
  rw [hentries] at hperm
  by_cases hversion : .versionComplete ∈ reports.dropLast.flatten
  · rw [if_pos hversion] at hshape
    refine ⟨head.method, head.url, head.version, lines, hshape, hperm, ?_⟩
    exact iff_of_true ⟨rfl, rfl, rfl⟩ (Or.inl hversion)
  · -- the parts of the request line are complete with the head, whatever they are now
    obtain ⟨hm, hu, hv⟩ := hspelled.line_mem
    have hmethod : (Tally.empty.addAll reports.flatten).method.isSome := by
      rw [heq, Tally.method_addAll]
      exact Or.inr (List.mem_append_left _ hm)
    have hurl : (Tally.empty.addAll reports.flatten).url.isSome := by
      rw [heq, Tally.url_addAll]
      exact Or.inr (List.mem_append_left _ hu)
    have hversion' : (Tally.empty.addAll reports.flatten).version.isSome := by
      rw [heq, Tally.version_addAll]
      exact Or.inr (List.mem_append_left _ hv)
    obtain ⟨method, hmethod⟩ := Option.isSome_iff_exists.mp hmethod
    obtain ⟨url, hurl⟩ := Option.isSome_iff_exists.mp hurl
    obtain ⟨version, hversion'⟩ := Option.isSome_iff_exists.mp hversion'
    rw [if_neg hversion, hmethod, hurl, hversion'] at hshape
    refine ⟨method, url, version, lines, hshape, hperm, ?_⟩
    simp [LineKept, hversion, hmethod, hurl, hversion']

namespace HttpChannel

variable {t : HttpSetup} {events : List HttpEvent} {head : Head} {reports : List (List Callback)}
  {after : List Callback}

/-- **A head without an error is forwarded.** -/
theorem parsed_forwards (hL : t.llhttp.Documented) (hworks : ∀ e ∈ events, e.Works)
    (hparses : t.llhttp.Parses (reads events) head reports after 0)
    (hread : StepsMeet (advance t) (Readable t) (new t.llhttp) events) :
    (∃ c, loop t (new t.llhttp) events = .done c) ∧
      puts t (new t.llhttp) events = forwarded t .empty reports := by
  obtain ⟨report, hspelled, heq⟩ := hparses.spelled
  refine loop_forwards hL (at_new t) hworks hparses.parse hread Bool.false_ne_true ?_
  rw [heq, Tally.complete_addAll]
  exact Or.inr (List.mem_append_left _ hspelled.complete_mem)

/-- What the loop has put when it is left with the channel `c` has gone to the local service, or is
in the buffer for it. -/
theorem out_of_done {c : HttpChannel t.llhttp} (h : loop t (new t.llhttp) events = .done c) :
    c.out = (puts t (new t.llhttp) events).flatMap Put.bytes := by
  have hpost := loop_out t (new t.llhttp) events
  rw [h] at hpost
  exact hpost

/-- A loop that is left has not panicked. -/
theorem readable_of_done (hL : t.llhttp.Documented) {c : HttpChannel t.llhttp}
    (h : loop t (new t.llhttp) events = .done c) :
    StepsMeet (advance t) (Readable t) (new t.llhttp) events := by
  refine (http_not_panicked_iff hL events).mp ?_
  rw [h]
  exact fun heq => nomatch heq

/-! ## A request in one read

The smallest runs of the channel: the peer sends a head and what is behind it, and one read returns
all of it. Here llhttp is given by what it reports. -/

def Ascii (head : Head) : Prop :=
  ∀ part ∈ [head.method, head.url, head.version] ++ head.fields.map Prod.fst,
    ∀ b ∈ part, Utf8.isAscii b

/-- A value of a head stands between a blank and the end of its line. -/
theorem value_in_bytes {head : Head} {e : Bytes × Bytes} (he : e ∈ head.fields) (tail : Bytes) :
    ∃ before after, head.bytes ++ tail = before ++ [32] ++ (e.2 ++ 13 :: after) := by
  obtain ⟨front, back, hfields⟩ := List.append_of_mem he
  refine ⟨head.method ++ [32] ++ head.url ++ [32, 72, 84, 84, 80, 47] ++ head.version ++ [13, 10]
    ++ (front.flatMap fun e => e.1 ++ [58, 32] ++ e.2 ++ [13, 10]) ++ e.1 ++ [58],
    10 :: (back.flatMap fun e => e.1 ++ [58, 32] ++ e.2 ++ [13, 10]) ++ [13, 10] ++ tail, ?_⟩
  simp [Head.bytes, hfields]

theorem scripted_head_documented {head : Head} (hhead : Ascii head) (tail : Bytes)
    {after : List Callback} (hvalue : ∀ span, .headerValue span ∉ after)
    (hafter : ∀ cb ∈ after, ∀ span ∈ cb.asciiSpan, ∀ b ∈ span, Utf8.isAscii b) :
    (scripted (head.bytes ++ tail) (head.callbacks ++ after)).Documented := by
  refine scripted_documented ?_ ?_ (by simp [Head.callbacks])
  · intro cb hcb span hspan
    rcases List.mem_append.mp hcb with hcb | hcb
    · refine hhead span ?_
      simp only [Head.callbacks, List.cons_append, List.nil_append, List.mem_cons, List.mem_append,
        List.mem_flatMap, List.not_mem_nil, or_false] at hcb
      rcases hcb with rfl | rfl | rfl | rfl | rfl | rfl | ⟨e, he, rfl | rfl | rfl⟩ | rfl
      all_goals cases hspan
      · simp
      · simp
      · simp
      · exact List.mem_append_right _ (List.mem_map_of_mem he)
    · exact hafter cb hcb span hspan
  · intro span hspan
    have hfield : ∃ e ∈ head.fields, e.2 = span := by
      rcases List.mem_append.mp hspan with hspan | hspan
      · simpa [Head.callbacks, eq_comm] using hspan
      · exact absurd hspan (hvalue span)
    obtain ⟨e, he, rfl⟩ := hfield
    obtain ⟨before, rest, hbytes⟩ := value_in_bytes he tail
    refine ⟨before ++ [32], 13 :: rest, hbytes, ?_, ?_⟩
    · exact Or.inr (Or.inr (Or.inl ⟨32, by simp, by decide⟩))
    · exact Or.inr (Or.inr (Or.inr ⟨13, rfl, by decide⟩))

/-- A channel in front of a peer that sends a head and `tail` in one read, for which llhttp reports
`after` behind the head. -/
def oneRead (autoOverride : Bool) (host : Bytes) (head : Head) (tail : Bytes)
    (after : List Callback) : HttpSetup :=
  ⟨scripted (head.bytes ++ tail) (head.callbacks ++ after), autoOverride, [], host, id, false⟩

/-- The pass in which the channel reads them. -/
def inOneRead (head : Head) (tail : Bytes) : List HttpEvent :=
  [.remote (.ok (head.bytes ++ tail)) (.ok 64) (.ok 64)]

theorem inOneRead_works (head : Head) (tail : Bytes) : ∀ e ∈ inOneRead head tail, e.Works := by
  intro e he
  cases List.mem_singleton.mp he
  refine ⟨?_, trivial, trivial⟩
  rcases hbytes : head.bytes ++ tail with _ | ⟨b, bytes⟩
  · simp [Head.bytes] at hbytes
  · trivial

/-- `GET / HTTP/1.1` with these headers. -/
def getHead (fields : List (Bytes × Bytes)) : Head := ⟨[71, 69, 84], [47], [49, 46, 49], fields⟩

theorem ascii_getHead {fields : List (Bytes × Bytes)}
    (h : ∀ e ∈ fields, ∀ b ∈ e.1, Utf8.isAscii b) : Ascii (getHead fields) := by
  intro part hpart
  rcases List.mem_append.mp hpart with hpart | hpart
  · have hline : ∀ part ∈ [[71, 69, 84], [47], [49, 46, 49]], ∀ b ∈ part, Utf8.isAscii b := by
      simp [Utf8.isAscii]
    exact hline part hpart
  · obtain ⟨e, he, rfl⟩ := List.mem_map.mp hpart
    exact h e he

end HttpChannel

end Rslinker
