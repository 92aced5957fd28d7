import Rslinker.Client.HttpPanic
import Rslinker.Llhttp.Report

set_option autoImplicit false

/-! # What the HTTP channel writes to the local service

`puts` lists what the loop puts into `override_remote_buf`, piece by piece: the request line, the
lines of the headers, and when the headers are complete the blank line and the body data that the
parser has already found. `loop_out` says that this is what has been written or is still in the
buffer. Behind the loop the buffers are flushed, and `copy_bidirectional` relays what follows.

When llhttp accepts the reads, the pieces depend on its reports only (`loop_forwards`).
-/

namespace Rslinker

/-- A piece that the channel puts into `override_remote_buf`. -/
inductive Put
  | requestLine (method url version : Bytes)
  | header (name value : Bytes)
  | blank
  | content (bytes : Bytes)
  deriving DecidableEq, Repr

def Put.bytes : Put → Bytes
  | .requestLine method url version => HttpChannel.requestLine method url version
  | .header name value => name ++ [58, 32] ++ value ++ [13, 10]
  | .blank => [13, 10]
  | .content bytes => bytes

/-! ## The table of overrides

`override_headers` is made once, from the automatic entry for `Host` and the configured entries, and
every header is looked up in it. What a header is to look like can be said without the table
(`HttpSetup.due`): a configured entry for its name counts, then the automatic one. The keys of the
configuration are distinct, as those of any `HashMap<Ascii<String>, String>`, and so the table gives
every header the value that is due to it (`overridden_eq_due`). -/

section Table

variable {entries : List (Bytes × Bytes)} {name : Bytes}

theorem get_foldl_of_unknown (h : ∀ e ∈ entries, ¬ asciiEq e.1 name) (table : Headers) :
    (entries.foldl (fun table e => Headers.insert e.1 e.2 table) table).get name
      = table.get name := by
  induction entries generalizing table with
  | nil => rfl
  | cons e entries ih =>
      rw [List.foldl_cons, ih fun e he => h e (by simp [he]), Headers.get_insert,
        if_neg (h e (by simp))]

theorem get_foldl_of_mem (hdistinct : Distinct entries) {e : Bytes × Bytes} (he : e ∈ entries)
    (hname : asciiEq e.1 name) (table : Headers) :
    (entries.foldl (fun table e => Headers.insert e.1 e.2 table) table).get name = some e.2 := by
  induction entries generalizing table with
  | nil => cases he
  | cons f entries ih =>
      obtain ⟨hf, hrest⟩ := List.pairwise_cons.mp hdistinct
      rw [List.foldl_cons]
      rcases List.mem_cons.mp he with rfl | he
      · -- no later entry has this name
        have hlater : ∀ g ∈ entries, ¬ asciiEq g.1 name := by
          intro g hg hgname
          apply hf g hg
          rw [asciiEq_congr hname, asciiEq_comm]
          exact hgname
        rw [get_foldl_of_unknown hlater, Headers.get_insert, if_pos hname]
      · exact ih hrest he _

end Table

namespace HttpSetup

/-- A header with the value that is written for it. -/
def overridden (t : HttpSetup) (e : Bytes × Bytes) : Bytes × Bytes :=
  (e.1, (t.overrideHeaders.get e.1).getD e.2)

/-- A header with the value that it is to have. -/
def due (t : HttpSetup) (e : Bytes × Bytes) : Bytes × Bytes :=
  (e.1, match t.override_.find? fun o => asciiEq o.1 e.1 with
    | some o => o.2
    | none => if t.autoOverride && asciiEq [72, 111, 115, 116] e.1 then t.host else e.2)

variable {t : HttpSetup} {name : Bytes}

/-- A configured entry is effective. -/
theorem get_overrideHeaders_of_mem (hdistinct : Distinct t.override_) {e : Bytes × Bytes}
    (he : e ∈ t.override_) (hname : asciiEq e.1 name) : t.overrideHeaders.get name = some e.2 :=
  get_foldl_of_mem hdistinct he hname _

/-- Where no entry is configured, the automatic one for `Host` is. -/
theorem get_overrideHeaders_host (h : ∀ e ∈ t.override_, ¬ asciiEq e.1 name)
    (hauto : t.autoOverride) (hname : asciiEq [72, 111, 115, 116] name) :
    t.overrideHeaders.get name = some t.host := by
  unfold overrideHeaders
  rw [get_foldl_of_unknown h, if_pos hauto, Headers.get_insert, if_pos hname]

theorem get_overrideHeaders_none (h : ∀ e ∈ t.override_, ¬ asciiEq e.1 name)
    (hhost : ¬ (t.autoOverride && asciiEq [72, 111, 115, 116] name)) :
    t.overrideHeaders.get name = none := by
  unfold overrideHeaders
  rw [get_foldl_of_unknown h]
  cases hauto : t.autoOverride with
  | true =>
      rw [hauto, Bool.true_and] at hhost
      rw [if_pos rfl, Headers.get_insert, if_neg hhost]
      rfl
  | false => rfl

/-- **The table gives what is due.** -/
theorem overridden_eq_due (hdistinct : Distinct t.override_) : t.overridden = t.due := by
  funext e
  refine Prod.ext rfl ?_
  unfold overridden due
  cases hfind : t.override_.find? fun o => asciiEq o.1 e.1 with
  | some o =>
      have hname := List.find?_some hfind
      rw [get_overrideHeaders_of_mem hdistinct (List.mem_of_find?_eq_some hfind) hname]
      rfl
  | none =>
      have hnone : ∀ o ∈ t.override_, ¬ asciiEq o.1 e.1 := List.find?_eq_none.mp hfind
      by_cases hhost : t.autoOverride && asciiEq [72, 111, 115, 116] e.1
      · obtain ⟨hauto, hname⟩ := Bool.and_eq_true_iff.mp hhost
        rw [get_overrideHeaders_host hnone hauto hname]
        exact (if_pos hhost).symm
      · rw [get_overrideHeaders_none hnone hhost]
        exact (if_neg hhost).symm

/-- What is due to a header depends on its name only up to the case of its letters. -/
theorem due_rewrites (t : HttpSetup) : Rewrites t.due where
  name _ := rfl
  value := by
    intro a b v hab
    have hsame : ∀ c, asciiEq c a = asciiEq c b := by
      intro c
      rw [asciiEq_comm c a, asciiEq_comm c b, asciiEq_congr hab]
    simp only [due, hsame]

end HttpSetup

/-! ## The pieces

A piece is a text with its meaning: a request line, a line of a header, the blank line, or bytes of
the body. To speak of the lines of headers in what the local service gets would mean to parse it
again; the pieces are known before they are formatted. -/

/-- The request line, when it is complete and has not been sent. -/
def putLine (sent : Bool) (method url version : Option Bytes) : List Put :=
  match method, url, version with
  | some method, some url, some version => if sent then [] else [.requestLine method url version]
  | _, _, _ => []

theorem putLine_sent (method url version : Option Bytes) : putLine true method url version = [] := by
  unfold putLine
  split <;> rfl

theorem putLine_none (sent : Bool) (method url : Option Bytes) : putLine sent method url none = [] := by
  unfold putLine
  split
  · rename_i h
    cases h
  · rfl

/-- The lines of headers. -/
def putHeaders (t : HttpSetup) (headers : Headers) : List Put :=
  if headers.isEmpty then []
  else (t.iter headers).map fun e => .header (t.overridden e).1 (t.overridden e).2

theorem bytes_putHeaders {t : HttpSetup} {headers : Headers} (h : ¬ headers.isEmpty) :
    (putHeaders t headers).flatMap Put.bytes = t.overrideHeader headers := by
  rw [putHeaders, if_neg h, List.flatMap_map]
  rfl

/-- What is put behind complete headers. -/
def putEnd (complete : Bool) (body : Bytes) : List Put :=
  if complete then [.blank, .content body] else []

namespace HttpChannel

/-- The pieces that are put when `p` is the parser after a read. -/
def putsWith (t : HttpSetup) (sent : Bool) (p : RequestParser t.llhttp) : List Put :=
  putLine sent p.method p.url p.version ++ putHeaders t p.headers
    ++ putEnd p.isHeaderComplete p.bodyBuf

/-- What one pass through the loop puts into the buffer. -/
def putsOf (t : HttpSetup) (c : HttpChannel t.llhttp) : HttpEvent → List Put
  | .remote (.ok data) _ _ =>
      match c.requestParser.execute (c.remoteBuf ++ data) with
      | some (p, _) => putsWith t c.isRequestLineSend p
      | none => []
  | _ => []

/-- What the loop puts into the buffer. -/
def puts (t : HttpSetup) : HttpChannel t.llhttp → List HttpEvent → List Put
  | _, [] => []
  | c, e :: es =>
      putsOf t c e ++
        match c.step t e with
        | .next c' => puts t c' es
        | _ => []

/-- What has gone to the local service, or is in the buffer for it. -/
def out {L : Llhttp} (c : HttpChannel L) : Bytes := c.toLocal ++ c.overrideRemoteBuf

end HttpChannel

/-! ## The results of a part of the loop's body

The body is a sequence of parts, each of which goes on, breaks, returns an error or panics. `Post`
is a postcondition for the first two, and composes along `bind`, so there is one lemma for each
part. -/

/-- The channel with which the body goes on. -/
def LoopStep.going {L : Llhttp} : LoopStep L → Option (HttpChannel L)
  | .next c => some c
  | _ => none

/-- `N` holds where the body goes on, and `D` where the loop is left by `break`. -/
def LoopStep.Post {L : Llhttp} (N D : HttpChannel L → Prop) : LoopStep L → Prop
  | .next c => N c
  | .done c => D c
  | .failed _ | .panicked => True

/-- After a part that does not `break`. -/
theorem LoopStep.Post.bind {L : Llhttp} {N N' D : HttpChannel L → Prop} {r : LoopStep L}
    {k : HttpChannel L → LoopStep L} (h : r.Post N fun _ => False)
    (hk : ∀ c, N c → (k c).Post N' D) : (r.bind k).Post N' D := by
  cases r with
  | next c => exact hk c h
  | done c => exact h.elim
  | failed e => trivial
  | panicked => trivial

theorem LoopStep.Post.imp {L : Llhttp} {N N' D D' : HttpChannel L → Prop} {r : LoopStep L}
    (h : r.Post N D) (hN : ∀ c, N c → N' c) (hD : ∀ c, D c → D' c) : r.Post N' D' := by
  cases r with
  | next c => exact hN c h
  | done c => exact hD c h
  | failed e => trivial
  | panicked => trivial

namespace HttpChannel

variable {L : Llhttp}

/-- `c'` is what has become of `c` when these pieces were put, and parts of the buffer written. -/
structure Wrote (c c' : HttpChannel L) (pieces : List Put) (p : RequestParser L) (sent : Bool) :
    Prop where
  out : c'.out = c.out ++ pieces.flatMap Put.bytes
  parser : c'.requestParser = p
  sent : c'.isRequestLineSend = sent
  remoteBuf : c'.remoteBuf = c.remoteBuf

theorem writeLocal_post (c : HttpChannel L) (w : WriteBuf) :
    (c.writeLocal w).Post (fun c' => c.Wrote c' [] c.requestParser c.isRequestLineSend)
      fun _ => False := by
  rcases w with (_ | size) | _
  · trivial
  · refine ⟨?_, rfl, rfl, rfl⟩
    simp [HttpChannel.out]
  · trivial

theorem sendRequestLine_post (c : HttpChannel L) (w : WriteBuf) :
    (c.sendRequestLine w).Post
      (fun c' => c.Wrote c'
        (putLine c.isRequestLineSend c.requestParser.method c.requestParser.url
          c.requestParser.version)
        c.requestParser (c.isRequestLineSend || c.requestParser.version.isSome))
      fun _ => False := by
  unfold sendRequestLine
  split
  · rename_i hsend
    rw [Bool.and_eq_true, Bool.not_eq_true'] at hsend
    split
    · rename_i method url version hmethod hurl hversion
      refine (writeLocal_post _ w).imp (fun c' h => ?_) fun _ => id
      refine ⟨?_, h.parser, ?_, h.remoteBuf⟩
      · rw [h.out]
        simp [HttpChannel.out, putLine, hmethod, hurl, hversion, hsend.2, Put.bytes]
      · rw [h.sent]
        simp [hsend.1]
    · trivial
  · -- the version is not known, or the line has been sent
    rename_i hsend
    rw [Bool.and_eq_true, not_and_or, Bool.not_eq_true, Bool.not_eq_true, Bool.not_eq_false'] at hsend
    rcases hsend with hversion | hsent
    · have hnone := Option.isSome_eq_false_iff.mp hversion
      rw [Option.isNone_iff_eq_none] at hnone
      exact ⟨by simp [hnone, putLine_none], rfl, by simp [hversion], rfl⟩
    · exact ⟨by simp [hsent, putLine_sent], rfl, by simp [hsent], rfl⟩

theorem sendHeaders_post {t : HttpSetup} (c : HttpChannel t.llhttp) (w : WriteBuf) :
    (c.sendHeaders t w).Post
      (fun c' => c.Wrote c' (putHeaders t c.requestParser.headers) c.requestParser.takeHeaders.2
        c.isRequestLineSend)
      fun _ => False := by
  unfold sendHeaders
  simp only
  split
  · rename_i hempty
    have hnone : putHeaders t c.requestParser.headers = [] := if_pos hempty
    refine ⟨?_, rfl, rfl, rfl⟩
    rw [hnone, List.flatMap_nil, List.append_nil]
    rfl
  · rename_i hheaders
    refine (writeLocal_post _ w).imp (fun c' h => ?_) fun _ => id
    refine ⟨?_, h.parser, h.sent, h.remoteBuf⟩
    have hbytes : (putHeaders t c.requestParser.headers).flatMap Put.bytes
        = t.overrideHeader c.requestParser.headers := bytes_putHeaders hheaders
    rw [h.out, hbytes, List.flatMap_nil, List.append_nil]
    exact (List.append_assoc ..).symm

theorem finishHeaders_post (c : HttpChannel L) :
    c.finishHeaders.Post (fun c' => c' = c ∧ ¬ c.requestParser.isHeaderComplete)
      fun c' => c.requestParser.isHeaderComplete ∧
        c'.out = c.out ++ [13, 10] ++ c.requestParser.bodyBuf := by
  unfold finishHeaders
  split
  · rename_i hcomplete
    refine ⟨hcomplete, ?_⟩
    simp only [HttpChannel.out, List.append_assoc]
  · rename_i hcomplete
    exact ⟨rfl, hcomplete⟩

theorem logRequest_post (logsInfo : Bool) (c : HttpChannel L) :
    (c.logRequest logsInfo).Post (fun c' => c' = c) fun _ => False := by
  unfold logRequest
  split
  · split
    · rfl
    · trivial
  · rfl

theorem parse_post (c : HttpChannel L) :
    c.parse.Post
      (fun c' => ∃ p, c.requestParser.execute c.remoteBuf = some (p, 0) ∧
        c' = { c with requestParser := p, remoteBuf := [] })
      fun _ => False := by
  unfold parse
  split
  · trivial
  · rename_i p hexec
    exact ⟨p, hexec, rfl⟩
  · trivial

/-- What a pass through the loop does with a read of the remote socket. -/
theorem remote_post (t : HttpSetup) (c : HttpChannel t.llhttp) (data : Bytes)
    (writeLine writeHeaders : WriteBuf) :
    (c.step t (.remote (.ok data) writeLine writeHeaders)).Post
      (fun c' => ∃ p, c.requestParser.execute (c.remoteBuf ++ data) = some (p, 0) ∧
        ¬ p.isHeaderComplete ∧
        c'.out = c.out ++ (putsWith t c.isRequestLineSend p).flatMap Put.bytes ∧
        c'.requestParser = p.takeHeaders.2 ∧
        c'.isRequestLineSend = (c.isRequestLineSend || p.version.isSome) ∧ c'.remoteBuf = [])
      fun c' => ∃ p, c.requestParser.execute (c.remoteBuf ++ data) = some (p, 0) ∧
        p.isHeaderComplete ∧
        c'.out = c.out ++ (putsWith t c.isRequestLineSend p).flatMap Put.bytes := by
  rcases data with _ | ⟨b, data⟩
  · trivial
  set c₁ : HttpChannel t.llhttp := { c with remoteBuf := c.remoteBuf ++ b :: data } with hc₁
  show ((c₁.logRequest t.logsInfo).bind _).Post _ _
  refine (logRequest_post t.logsInfo c₁).bind ?_
  rintro _ rfl
  refine (parse_post c₁).bind ?_
  rintro _ ⟨p, hexec, rfl⟩
  refine (sendRequestLine_post _ writeLine).bind fun c₂ h₂ => ?_
  refine (sendHeaders_post c₂ writeHeaders).bind fun c₃ h₃ => ?_
  have hparser : c₃.requestParser = p.takeHeaders.2 := by
    rw [h₃.parser, h₂.parser]
  -- the buffer has the line and the headers; `finishHeaders` decides about the rest
  have hout : c₃.out = c.out ++ (putLine c.isRequestLineSend p.method p.url p.version
      ++ putHeaders t p.headers).flatMap Put.bytes := by
    rw [h₃.out, h₂.out, h₂.parser, List.flatMap_append, List.append_assoc]
    rfl
  refine (finishHeaders_post c₃).imp ?_ ?_
  · rintro _ ⟨rfl, hcomplete⟩
    rw [hparser] at hcomplete
    have hcomplete' : ¬ p.isHeaderComplete := hcomplete
    refine ⟨p, hexec, hcomplete', ?_, hparser, ?_, ?_⟩
    · rw [hout, putsWith, putEnd, if_neg hcomplete', List.append_nil]
    · rw [h₃.sent, h₂.sent]
    · rw [h₃.remoteBuf, h₂.remoteBuf]
  · rintro c' ⟨hcomplete, hc'⟩
    rw [hparser] at hcomplete hc'
    have hcomplete' : p.isHeaderComplete := hcomplete
    refine ⟨p, hexec, hcomplete', ?_⟩
    rw [hc', hout, putsWith, putEnd, if_pos hcomplete']
    simp [Put.bytes, RequestParser.takeHeaders]

theorem local_post (t : HttpSetup) (c : HttpChannel t.llhttp) (read : ReadBuf) (write : WriteBuf) :
    (c.step t (.local read write)).Post
      (fun c' => c.Wrote c' [] c.requestParser c.isRequestLineSend) fun _ => False := by
  rcases read with (_ | ⟨b, data⟩) | _
  · trivial
  · rcases write with (_ | size) | _
    · trivial
    · refine ⟨?_, rfl, rfl, rfl⟩
      rw [List.flatMap_nil, List.append_nil]
      rfl
    · trivial
  · trivial

theorem step_out (t : HttpSetup) (c : HttpChannel t.llhttp) (e : HttpEvent) :
    (c.step t e).Post (fun c' => c'.out = c.out ++ (putsOf t c e).flatMap Put.bytes)
      fun c' => c'.out = c.out ++ (putsOf t c e).flatMap Put.bytes := by
  rcases e with ⟨read, write⟩ | ⟨data | _, writeLine, writeHeaders⟩
  · exact (local_post t c read write).imp (fun _ h => h.out) fun _ => False.elim
  · refine (remote_post t c data writeLine writeHeaders).imp ?_ ?_
    · rintro c' ⟨p, hexec, -, hout, -⟩
      simpa only [putsOf, hexec] using hout
    · rintro c' ⟨p, hexec, -, hout⟩
      simpa only [putsOf, hexec] using hout
  · trivial

/-- **The loop has written, or still has in its buffer, what it has put there.** -/
theorem loop_out (t : HttpSetup) (c : HttpChannel t.llhttp) (events : List HttpEvent) :
    (loop t c events).Post (fun c' => c'.out = c.out ++ (puts t c events).flatMap Put.bytes)
      fun c' => c'.out = c.out ++ (puts t c events).flatMap Put.bytes := by
  induction events generalizing c with
  | nil => simp [loop, LoopStep.Post, puts]
  | cons e es ih =>
      have hstep := step_out t c e
      simp only [loop, puts]
      rcases hs : c.step t e with c₁ | c₁ | err | _
      · rw [hs] at hstep
        simp only [LoopStep.bind, List.flatMap_append, ← List.append_assoc]
        rw [← show c₁.out = _ from hstep]
        exact ih c₁
      · rw [hs] at hstep
        simpa [LoopStep.bind, LoopStep.Post] using hstep
      · trivial
      · trivial

/-! ## Behind the loop

Three loops follow: two that flush the buffers, and `copy_bidirectional`. What the last one copies
does not pass through the parser nor through the table of overrides. -/

/-- A step of the channel behind the loop. -/
inductive RelayEvent
  /-- A pass through `while !override_remote_buf.is_empty()`, with what `write_buf` returns. -/
  | flushLocal (write : WriteBuf)
  /-- A pass through `while !local_buf.is_empty()`. -/
  | flushRemote (write : WriteBuf)
  /-- `copy_bidirectional` copies bytes of the remote peer to the local service. -/
  | toLocal (data : Bytes)
  /-- It copies bytes of the local service to the remote peer. -/
  | toRemote (data : Bytes)
  deriving DecidableEq, Repr

/-- A step behind the loop, `none` when the step is not possible or the channel ends with it. -/
def relay (c : HttpChannel L) : RelayEvent → Option (HttpChannel L)
  | .flushLocal write => if c.overrideRemoteBuf = [] then none else (c.writeLocal write).going
  | .flushRemote write =>
      if c.overrideRemoteBuf = [] ∧ c.localBuf ≠ [] then (c.writeRemote write).going else none
  | .toLocal data =>
      if c.overrideRemoteBuf = [] ∧ c.localBuf = [] then
        some { c with toLocal := c.toLocal ++ data }
      else none
  | .toRemote data =>
      if c.overrideRemoteBuf = [] ∧ c.localBuf = [] then
        some { c with toRemote := c.toRemote ++ data }
      else none

/-- What `copy_bidirectional` has copied to the local service. -/
def copied (acts : List RelayEvent) : Bytes :=
  acts.flatMap fun act => match act with
    | .toLocal data => data
    | _ => []

theorem relay_out {c c' : HttpChannel L} {act : RelayEvent} (h : c.relay act = some c') :
    c'.out = c.out ++ copied [act] := by
  cases act with
  | flushLocal write =>
      obtain ⟨-, h⟩ := Option.ite_none_left_eq_some.mp h
      have hpost := writeLocal_post c write
      rcases hw : c.writeLocal write with c₁ | c₁ | err | _ <;> rw [hw] at h hpost
      · cases h
        exact hpost.out
      all_goals cases h
  | flushRemote write =>
      obtain ⟨-, h⟩ := Option.ite_none_right_eq_some.mp h
      rcases write with (_ | size) | _ <;> cases h
      simp [HttpChannel.out, copied]
  | toLocal data =>
      obtain ⟨⟨hempty, -⟩, h⟩ := Option.ite_none_right_eq_some.mp h
      cases h
      simp [HttpChannel.out, copied, hempty]
  | toRemote data =>
      obtain ⟨-, h⟩ := Option.ite_none_right_eq_some.mp h
      cases h
      simp [HttpChannel.out, copied]

/-- **What comes behind the loop reaches the local service as it is.** -/
theorem run_relay_out {c c' : HttpChannel L} {acts : List RelayEvent}
    (h : run relay c acts = some c') : c'.out = c.out ++ copied acts := by
  have hnone : c.out = c.out ++ copied [] := (List.append_nil _).symm
  refine run_invariant_history (P := fun s done => s.out = c.out ++ copied done) ?_ hnone h
  intro s done act s' hs hact
  rw [relay_out hact, hs, List.append_assoc]
  simp [copied]

end HttpChannel

end Rslinker
