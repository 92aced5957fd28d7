import Rslinker.Llhttp.Bodies

set_option autoImplicit false

/-! # Messages

A message is a head and the body that the head announces. `readMessage` is what a message leaves in
the data, or its error, by itself; llhttp reads it so behind any other messages, and then begins the
next one, waits for nothing more, or pauses for an upgrade (`message_outcome`). So a list of messages
on one connection is read message by message.
-/

namespace Rslinker.Internal

open Scan

/-! ## The function

`readMessage` is what a message does when it is alone on its connection: its head, and then the
body that the head announces. It is a function of the parts of the message, and the theorems say
that llhttp computes it from the bytes. -/

structure Message where
  head : Head
  body : Body
  deriving DecidableEq, Repr

def Message.bytes (m : Message) : Bytes := m.head.bytes ++ m.body.bytes

def messageEvents (d : Internal) (m : Message) : List (Event Span Report) :=
  headEvents d m.head ++ .report .headersComplete :: (m.body.events ++ [.report .messageComplete])

/-- A message by itself: the data at its end, or the number of its error. -/
def readMessage (m : Message) (code major minor : Nat) : Except Nat Internal :=
  (init.readHead m.head code major minor).bind fun d =>
    if d.announce.afterHeadersComplete.2 = 5 then .error 15 else d.announce.readBody m.body

/-- What is known of a message before llhttp has read it: its head may be one, and its body is what
the head announces. -/
structure IsMessage (m : Message) (code major minor : Nat) : Prop where
  head : IsHead m.head code major minor
  body : ∀ d, init.readHead m.head code major minor = .ok d →
    d.announce.afterHeadersComplete.2 ≠ 5 → d.announce.Announced m.body

/-! ## The end of a message

Behind a message llhttp begins the next one, takes nothing more but line ends, or pauses. Which of
these it is depends on the data that the head has left: on the options of `Connection`, on the
version and on whether an upgrade has been asked for. -/

/-- What llhttp does behind a message. -/
inductive Ending
  /-- the next message may begin -/
  | next
  /-- the connection is to be closed -/
  | close
  /-- it stops in front of what is not HTTP any more -/
  | pause
  deriving DecidableEq, Repr

def ending (d : Internal) : Ending :=
  if d.upgrade then .pause else if d.shouldKeepAlive then .next else .close

/-- The data in front of the next message. -/
def next (d : Internal) : Internal :=
  { d with finish := 0, flags := .none, contentLength := 0, initialMessageCompleted := true }

theorem next_fresh (d : Internal) : d.next.Fresh := ⟨rfl, rfl⟩

/-- An input is read up to the end of a message. -/
def Ended (c : Config Label Internal Span) (x : Bytes) (es : List (Event Span Report)) (y : Bytes)
    (d : Internal) : Prop :=
  match d.ending with
  | .next => Steps machine c x es (startConfig d.next) y
  | .close => Steps machine c x es ⟨.closed, 0, none, { d with finish := 0, flags := .none }⟩ y
  | .pause => Fails machine c x es ⟨.pause1, 0, none, d⟩ y 22 "Pause on CONNECT/Upgrade"
      (some .invokeAfterMessageComplete)

theorem Ended.behind {c c' : Config Label Internal Span} {x x' y : Bytes}
    {es es' : List (Event Span Report)} {d : Internal} (h : Steps machine c x es c' x')
    (h' : Ended c' x' es' y d) : Ended c x (es ++ es') y d := by
  unfold Ended at h' ⊢
  split at h'
  · exact h.trans h'
  · exact h.trans h'
  · exact ⟨h.trans h'.steps, h'.stops⟩

/-- Behind the report of a message that is not paused for. -/
theorem after_message (d : Internal) (hupgrade : d.upgrade = false) (y : Bytes) :
    Ended ⟨.invokeAfterMessageComplete, 0, none, d⟩ y [] y d := by
  have hafter := Machine.invoke_steps (m := machine) (l := .invokeAfterMessageComplete) rfl
    (none : Option Span) d y
  unfold Ended ending
  rw [if_neg (by simp [hupgrade])]
  by_cases halive : d.shouldKeepAlive
  · have hlookup : lookup [(1, Label.invokeUpdateContentLength)] .invokeUpdateFinish1
        d.afterMessageComplete.2 = .invokeUpdateContentLength := by
      simp [afterMessageComplete, halive, lookup]
    have hrest : Steps machine ⟨.invokeUpdateContentLength, 0, none, d.afterMessageComplete.1⟩ y []
        (startConfig d.next) y := Machine.steps_of_follow 3 rfl
    rw [hlookup] at hafter
    rw [if_pos halive]
    exact hafter.trans hrest
  · have hlookup : lookup [(1, Label.invokeUpdateContentLength)] .invokeUpdateFinish1
        d.afterMessageComplete.2 = .invokeUpdateFinish1 := by
      simp [afterMessageComplete, halive, lookup]
    have hrest : Steps machine ⟨.invokeUpdateFinish1, 0, none, d.afterMessageComplete.1⟩ y []
        ⟨.closed, 0, none, { d with finish := 0, flags := .none }⟩ y := Machine.steps_of_follow 2 rfl
    rw [hlookup] at hafter
    rw [if_neg halive]
    exact hafter.trans hrest

theorem pause_ended {d : Internal} (hupgrade : d.upgrade = true) (y : Bytes) :
    Ended ⟨.pause1, 0, none, d⟩ y [] y d := by
  unfold Ended ending
  rw [if_pos hupgrade]
  exact ⟨.refl _ y, rfl⟩

/-- Where a message has been checked for an upgrade before its end. -/
theorem complete_ended (d : Internal) (y : Bytes) :
    Ended ⟨.invokeOnMessageComplete2, 0, none, d⟩ y [.report .messageComplete] y d := by
  have hreport : Steps machine ⟨.invokeOnMessageComplete2, 0, none, d⟩ y [.report .messageComplete]
      ⟨.invokeIsEqualUpgrade, 0, none, d⟩ y := .of_quiet rfl
  have htest := Machine.invoke_steps (m := machine) (l := .invokeIsEqualUpgrade) rfl
    (none : Option Span) d y
  cases hupgrade : d.upgrade with
  | true =>
      have hlookup : lookup [(0, Label.invokeAfterMessageComplete)] .pause1 (isEqualUpgrade d).2
          = .pause1 := by simp [isEqualUpgrade, hupgrade, lookup]
      rw [hlookup] at htest
      exact Ended.behind hreport (Ended.behind htest (pause_ended hupgrade y))
  | false =>
      have hlookup : lookup [(0, Label.invokeAfterMessageComplete)] .pause1 (isEqualUpgrade d).2
          = .invokeAfterMessageComplete := by simp [isEqualUpgrade, hupgrade, lookup]
      rw [hlookup] at htest
      exact Ended.behind hreport (Ended.behind htest (after_message d hupgrade y))

/-! ## Data that are alike

A later message starts from data in which some fields have been left behind. They do not count, and
so the data are alike in a way that the whole reading of a message keeps. -/

/-- The data agree but for what does not count behind a head. -/
def Alike (d e : Internal) : Prop :=
  ∃ s done, d = { e with headerState := s, initialMessageCompleted := done }

namespace Alike

variable {d e : Internal}

theorem of_forget (h : d.forget = e.forget) (hupgrade : d.upgrade = e.upgrade) : d.Alike e := by
  refine ⟨d.headerState, d.initialMessageCompleted, ?_⟩
  have hall := congrArg (fun f : Internal => { f with
    headerState := d.headerState
    upgrade := d.upgrade
    initialMessageCompleted := d.initialMessageCompleted }) h
  rw [hupgrade] at hall
  calc d = { d with upgrade := e.upgrade } := by rw [← hupgrade]
    _ = { e with
        headerState := d.headerState
        initialMessageCompleted := d.initialMessageCompleted } := hall

theorem forget (h : d.Alike e) : d.forget = e.forget := by
  obtain ⟨s, done, rfl⟩ := h
  rfl

theorem upgrade (h : d.Alike e) : d.upgrade = e.upgrade := by
  obtain ⟨s, done, rfl⟩ := h
  rfl

theorem of_headerState (h : d.Alike e) (s : Nat) : Alike { d with headerState := s } e := by
  obtain ⟨s', done, rfl⟩ := h
  exact ⟨s, done, rfl⟩

theorem afterHeadersComplete (h : d.Alike e) :
    d.afterHeadersComplete.2 = e.afterHeadersComplete.2 := by
  obtain ⟨s, done, rfl⟩ := h
  rfl

theorem announced (h : d.Alike e) {body : Body} (hbody : e.Announced body) : d.Announced body := by
  obtain ⟨s, done, rfl⟩ := h
  cases body <;> exact hbody

theorem ending (h : d.Alike e) : d.ending = e.ending := by
  obtain ⟨s, done, rfl⟩ := h
  rfl

end Alike

theorem announce_forget (d : Internal) : d.announce.forget = d.forget := by
  unfold announce beforeHeadersComplete
  split <;> rfl

/-- Whether a head asks for an upgrade depends on its method and its fields alone. -/
theorem announce_upgrade (d : Internal) :
    d.announce.upgrade
      = (d.forget.flags.upgrade && d.forget.flags.connectionUpgrade ||
          decide (d.forget.method = httpConnect)) := by
  unfold announce beforeHeadersComplete
  show (if (d.flags.upgrade && d.flags.connectionUpgrade) = true then _ else _ : Internal × Nat).1.upgrade
    = (d.flags.upgrade && d.flags.connectionUpgrade || decide (d.method = httpConnect))
  by_cases h : (d.flags.upgrade && d.flags.connectionUpgrade) = true
  · rw [if_pos h, h]
    rfl
  · rw [if_neg h, Bool.eq_false_iff.mpr h]
    rfl

theorem alike_announce {d e : Internal} (h : d.forget = e.forget) : Alike d.announce e.announce := by
  refine .of_forget ?_ ?_
  · rw [announce_forget, announce_forget, h]
  · rw [announce_upgrade, announce_upgrade, h]

theorem field_upgrade {d d' : Internal} {name value : Bytes} (h : d.field name value = .ok d') :
    d'.upgrade = d.upgrade := by
  cases field_step h with
  | connection => rw [addOptions_eq]; rfl
  | plain | contentLength | transferEncoding | upgrade => rfl

theorem fields_upgrade {d d' : Internal} {es : List (Bytes × Bytes)} (h : d.fields es = .ok d') :
    d'.upgrade = d.upgrade := by
  induction es generalizing d with
  | nil =>
      cases h
      rfl
  | cons e es ih =>
      rw [fields] at h
      cases hfield : d.field e.1 e.2 with
      | error errno =>
          rw [hfield] at h
          cases h
      | ok d₁ =>
          rw [hfield] at h
          exact (ih h).trans (field_upgrade hfield)

/-- Two results are alike: the same error, or data that are. -/
inductive AlikeResults : Except Nat Internal → Except Nat Internal → Prop
  | error (errno : Nat) : AlikeResults (.error errno) (.error errno)
  | ok {d e : Internal} (h : d.Alike e) : AlikeResults (.ok d) (.ok e)

theorem AlikeResults.of_forget {r r' : Except Nat Internal} (h : r.map forget = r'.map forget)
    (hupgrade : ∀ d e, r = .ok d → r' = .ok e → d.upgrade = e.upgrade) : AlikeResults r r' := by
  rcases forget_cases h with ⟨errno, rfl, rfl⟩ | ⟨d, e, rfl, rfl, hsame⟩
  · exact .error errno
  · exact .ok (.of_forget hsame (hupgrade d e rfl rfl))

theorem readBody_upgrade {d d' : Internal} {body : Body} (h : d.readBody body = .ok d') :
    d'.upgrade = d.upgrade := by
  cases body with
  | fixed data =>
      cases h
      rfl
  | chunked chunks last trailers =>
      rw [readBody] at h
      have hfields := fields_upgrade h
      exact hfields

theorem Alike.readBody {d e : Internal} (h : d.Alike e) (body : Body) :
    AlikeResults (d.readBody body) (e.readBody body) := by
  refine .of_forget ?_ fun d' e' hd he => ?_
  · obtain ⟨s, done, rfl⟩ := h
    cases body with
    | fixed data => rfl
    | chunked chunks last trailers =>
        show (fields _ trailers).map Internal.forget = (fields _ trailers).map Internal.forget
        rw [fields_forget, fields_forget { e with contentLength := 0, flags := _ }]
        rfl
  · rw [readBody_upgrade hd, readBody_upgrade he, h.upgrade]

/-! ## Messages

A head, the report of its end, a body when there is one, and the end of the message. Each part has
its own module; here they are put behind each other, with the code of
`llhttp__after_headers_complete` in between. -/

theorem headersComplete_steps (d : Internal) (y : Bytes) :
    Steps machine ⟨.invokeOnHeadersComplete1, 0, none, d⟩ y [.report .headersComplete]
      ⟨.invokeAfterHeadersComplete, 0, none, d⟩ y := .of_quiet rfl

/-- How a message is read, or that it has an error. -/
def MessageOutcome (c : Config Label Internal Span) (x : Bytes) (es : List (Event Span Report))
    (y : Bytes) : Except Nat Internal → Prop
  | .ok e => ∃ d, d.Alike e ∧ Ended c x es y d
  | .error errno => Rejects machine c x errno

theorem MessageOutcome.behind {c c' : Config Label Internal Span} {x x' y : Bytes}
    {es es' : List (Event Span Report)} {r : Except Nat Internal} (h : Steps machine c x es c' x')
    (h' : MessageOutcome c' x' es' y r) : MessageOutcome c x (es ++ es') y r := by
  cases r with
  | error errno => exact h.rejects h'
  | ok e =>
      obtain ⟨d, halike, hended⟩ := h'
      exact ⟨d, halike, hended.behind h⟩

/-- From the end of a body on. -/
theorem end_outcome {d e : Internal} (hd : d.Framed) {body : Body} (h : d.Announced body)
    (hupgrade : e.upgrade = d.upgrade) (y : Bytes) :
    Ended ⟨d.endLabel body, 0, none, e⟩ y [.report .messageComplete] y e := by
  have hmeans := afterHeadersComplete_means hd
  cases body with
  | chunked chunks last trailers => exact complete_ended e y
  | fixed data =>
      rcases h with ⟨hcode, -⟩ | ⟨hcode, rfl⟩
      · simp only [endLabel, hcode]
        exact complete_ended e y
      · unfold endLabel
        generalize d.afterHeadersComplete.2 = code at hcode hmeans
        interval_cases code
        · have hreport : Steps machine ⟨.invokeOnMessageComplete, 0, none, e⟩ y
              [.report .messageComplete] ⟨.invokeAfterMessageComplete, 0, none, e⟩ y := .of_quiet rfl
          exact Ended.behind hreport (after_message e (hupgrade.trans hmeans.1) y)
        · have hreport : Steps machine ⟨.invokeOnMessageComplete1, 0, none, e⟩ y
              [.report .messageComplete] ⟨.pause1, 0, none, e⟩ y := .of_quiet rfl
          exact Ended.behind hreport (pause_ended (hupgrade.trans hmeans) y)

theorem Framed.announce {d : Internal} (h : d.Framed) : d.announce.Framed := by
  unfold Internal.announce beforeHeadersComplete
  split <;> exact ⟨h.sound, h.fits, h.exclusive, h.chunked⟩

theorem readHead_framed {d d' : Internal} (hd : d.Fresh) {head : Head} {code major minor : Nat}
    (h : d.readHead head code major minor = .ok d') : d'.Framed := by
  unfold readHead at h
  split at h
  · exact ((hd.framed code major minor).fields h).1
  · cases h

theorem init_fresh : init.Fresh := ⟨rfl, rfl⟩

/-- **A message is read** behind any other messages as it is by itself, or it has the error that
`readMessage` has for it. -/
theorem message_outcome {d : Internal} (hd : d.Fresh) {m : Message} {code major minor : Nat}
    (h : IsMessage m code major minor) (y : Bytes) :
    MessageOutcome (startConfig d) (m.bytes ++ y) (messageEvents d m) y
      (readMessage m code major minor) := by
  have hhead := head_outcome hd h.head (m.body.bytes ++ y)
  rw [Message.bytes, List.append_assoc]
  rcases forget_cases (readHead_congr hd m.head code major minor) with
    ⟨errno, hresult, hself⟩ | ⟨d₁, e₁, hresult, hself, hsame⟩
  · rw [hresult] at hhead
    rw [readMessage, hself]
    exact hhead
  · rw [hresult] at hhead
    obtain ⟨s, hread⟩ := hhead
    have hsteps := hread.trans (headersComplete_steps _ (m.body.bytes ++ y))
    -- what this head announces is what it announces by itself
    have halike : Alike ({ d₁ with headerState := s } : Internal).announce e₁.announce :=
      alike_announce hsame
    have hframed : ({ d₁ with headerState := s } : Internal).announce.Framed := by
      have h₁ := readHead_framed hd hresult
      exact Framed.announce ⟨h₁.sound, h₁.fits, h₁.exclusive, h₁.chunked⟩
    rw [readMessage, hself]
    show MessageOutcome _ _ _ _
      (if e₁.announce.afterHeadersComplete.2 = 5 then .error 15 else e₁.announce.readBody m.body)
    split
    · case isTrue hcode =>
        rw [← halike.afterHeadersComplete] at hcode
        have hafter := Machine.invoke_steps (m := machine) (l := .invokeAfterHeadersComplete) rfl
          (none : Option Span) ({ d₁ with headerState := s } : Internal).announce
          (m.body.bytes ++ y)
        rw [hcode] at hafter
        exact (hsteps.trans hafter).rejects (.of_stop rfl)
    · case isFalse hcode =>
        have hannounced := halike.announced (h.body e₁ hself hcode)
        have hbody := body_outcome hframed hannounced y
        have hbodies := halike.readBody m.body
        have hevents : messageEvents d m = headEvents d m.head ++ [.report .headersComplete]
            ++ (m.body.events ++ [.report .messageComplete]) := by simp [messageEvents]
        rw [hevents]
        refine MessageOutcome.behind hsteps ?_
        generalize hread : ({ d₁ with headerState := s } : Internal).announce.readBody m.body = r
          at hbody hbodies
        generalize e₁.announce.readBody m.body = r' at hbodies
        cases hbodies with
        | error errno => exact hbody
        | @ok d₂ e₂ halike' =>
            obtain ⟨s', hsteps'⟩ := hbody
            have hupgrade : d₂.upgrade = _ := readBody_upgrade hread
            have hend := end_outcome hframed hannounced (e := { d₂ with headerState := s' }) hupgrade y
            exact ⟨_, halike'.of_headerState s', hend.behind hsteps'⟩

/-! ## Messages behind each other

By induction on the messages: each of them leaves the parser in front of the next one, with data
that are alike to the initial ones. The last message may be of any kind. -/

/-- A message behind which the next one may begin. -/
def KeepsAlive (m : Message) : Prop :=
  ∃ code major minor e, IsMessage m code major minor ∧ readMessage m code major minor = .ok e ∧
    e.ending = .next

/-- The events of messages of which the first one begins with `d`. -/
def messagesEvents (d : Internal) : List Message → List (Event Span Report)
  | [] => []
  | m :: ms => messageEvents d m ++ ms.flatMap (messageEvents init.next)

/-- Of what comes before a message it only counts that there is something. -/
theorem messagesEvents_next (d : Internal) (ms : List Message) :
    messagesEvents d.next ms = ms.flatMap (messageEvents init.next) := by
  cases ms with
  | nil => rfl
  | cons m ms => rfl

theorem KeepsAlive.steps {d : Internal} (hd : d.Fresh) {m : Message} (h : KeepsAlive m) (y : Bytes) :
    ∃ d' : Internal, Steps machine (startConfig d) (m.bytes ++ y) (messageEvents d m)
      (startConfig d'.next) y := by
  obtain ⟨code, major, minor, e, hm, hread, hending⟩ := h
  have hout := message_outcome hd hm y
  rw [hread] at hout
  obtain ⟨d', halike, hended⟩ := hout
  rw [Ended, halike.ending, hending] at hended
  exact ⟨d', hended⟩

/-- **Messages are read one by one**, each as it is by itself. -/
theorem messages_outcome {d : Internal} (hd : d.Fresh) {ms : List Message}
    (h : ∀ m ∈ ms, KeepsAlive m) {m : Message} {code major minor : Nat}
    (hm : IsMessage m code major minor) (y : Bytes) :
    MessageOutcome (startConfig d) ((ms ++ [m]).flatMap Message.bytes ++ y)
      (messagesEvents d (ms ++ [m])) y (readMessage m code major minor) := by
  induction ms generalizing d with
  | nil => simpa [messagesEvents] using message_outcome hd hm y
  | cons m' ms ih =>
      obtain ⟨d', hfirst⟩ := (h m' List.mem_cons_self).steps hd
        ((ms ++ [m]).flatMap Message.bytes ++ y)
      have hrest := ih (next_fresh d') fun m'' hm'' => h m'' (List.mem_cons_of_mem m' hm'')
      have hout := MessageOutcome.behind hfirst hrest
      rw [messagesEvents_next] at hout
      simpa [messagesEvents] using hout

/-- What `llhttp_execute` returns at the end of a message. -/
def resultCode : Except Nat Internal → Nat
  | .error errno => errno
  | .ok e => if e.ending = .pause then 22 else 0

/-- Messages are read one by one from pieces of them. -/
theorem messages_read {ms : List Message} (h : ∀ m ∈ ms, KeepsAlive m) {m : Message}
    {code major minor : Nat} (hm : IsMessage m code major minor) {reads : List Bytes}
    (hreads : reads.flatten = (ms ++ [m]).flatMap Message.bytes) :
    (start.parse reads).2.2 = resultCode (readMessage m code major minor) ∧
      ∀ e, readMessage m code major minor = .ok e →
        start.parsed reads = messagesEvents init (ms ++ [m]) := by
  have hout := messages_outcome init_fresh h hm []
  rw [List.append_nil, ← hreads] at hout
  cases hread : readMessage m code major minor with
  | error errno =>
      rw [hread] at hout
      obtain ⟨es, c, z, reason, resume, hfails⟩ := hout
      obtain ⟨-, -, hcode, -⟩ := Resting.parse_of_fails start_waits hfails
      exact ⟨hcode, fun e he => nomatch he⟩
  | ok e =>
      rw [hread] at hout
      obtain ⟨d, halike, hended⟩ := hout
      unfold Ended at hended
      rw [halike.ending] at hended
      cases hending : e.ending with
      | next =>
          rw [hending] at hended
          obtain ⟨hcode, -, hparsed, -⟩ := Resting.parse_of_reads start_waits ⟨hended, rfl⟩
          exact ⟨by simp [resultCode, hending, hcode], fun _ _ => hparsed⟩
      | close =>
          rw [hending] at hended
          obtain ⟨hcode, -, hparsed, -⟩ := Resting.parse_of_reads start_waits ⟨hended, rfl⟩
          exact ⟨by simp [resultCode, hending, hcode], fun _ _ => hparsed⟩
      | pause =>
          rw [hending] at hended
          obtain ⟨lost, hparsed, hcode, -, hlost, -⟩ := Resting.parse_of_fails start_waits hended
          rw [hlost.none rfl, List.append_nil] at hparsed
          exact ⟨by simp [resultCode, hending, hcode], fun _ _ => hparsed.symm⟩

/-- **Messages that come in any pieces.** Behind messages that keep the connection alive the last one
is read as it is by itself: `llhttp_execute` returns its error, or 22 when it asks for an upgrade. Each
part of each message is called back once, in their order. -/
theorem messages_parse {ms : List Message} (h : ∀ m ∈ ms, KeepsAlive m) {m : Message}
    {code major minor : Nat} (hm : IsMessage m code major minor) {reads : List Bytes}
    (hreads : reads.flatten = (ms ++ [m]).flatMap Message.bytes) :
    (llhttp.parse llhttp.init reads).2 = resultCode (readMessage m code major minor) ∧
      ∀ e, readMessage m code major minor = .ok e →
        start.parsed reads = messagesEvents init (ms ++ [m]) := by
  rw [parse_code]
  exact messages_read h hm hreads

/-! ## Two messages

A message with a body of a fixed length that keeps its connection, and one in chunks that closes
it. -/

/-- `POST /a HTTP/1.1` with `Content-Length: 2` and the body `hi`. -/
def hiMessage : Message :=
  ⟨⟨word ['P', 'O', 'S', 'T'], word ['/', 'a'], word ['1', '.', '1'],
      [(word ['C', 'o', 'n', 't', 'e', 'n', 't', '-', 'L', 'e', 'n', 'g', 't', 'h'], word ['2'])]⟩,
    .fixed (word ['h', 'i'])⟩

/-- `POST /a HTTP/1.1` with `Transfer-Encoding: chunked` and `Connection: close`, a chunk with an
extension and a trailer. -/
def lastMessage : Message :=
  ⟨⟨word ['P', 'O', 'S', 'T'], word ['/', 'a'], word ['1', '.', '1'],
      [(word ['T', 'r', 'a', 'n', 's', 'f', 'e', 'r', '-', 'E', 'n', 'c', 'o', 'd', 'i', 'n', 'g'],
          word ['c', 'h', 'u', 'n', 'k', 'e', 'd']),
        (word ['C', 'o', 'n', 'n', 'e', 'c', 't', 'i', 'o', 'n'], word ['c', 'l', 'o', 's', 'e'])]⟩,
    .chunked [⟨word ['2'], [(word ['x'], some (word ['y']))], word ['h', 'i']⟩] ⟨word ['0'], [], []⟩
      [(word ['a'], word ['b'])]⟩

theorem isLine_of {v : UInt8} {value : Bytes} (hvalue : IsValue (v :: value))
    (hv : blankBytes.has v = false) : IsLine (v :: value) := by
  refine ⟨hvalue, fun b hb => ?_⟩
  obtain rfl : v = b := Option.some.inj hb
  exact hv

theorem isUrlText_word : IsUrlText (word ['/', 'a']) := by
  intro b hb
  simp only [word, List.map_cons, List.map_nil, List.mem_cons, List.not_mem_nil, or_false] at hb
  rcases hb with rfl | rfl <;> decide

theorem hiMessage_head : init.readHead hiMessage.head 3 1 1 =
    .ok ⟨2, 3, 1, 1, 0, false, 2, { Flags.none with contentLength := true }, false⟩ := rfl

theorem hiMessage_isMessage : IsMessage hiMessage 3 1 1 where
  head := ⟨by decide, List.cons_ne_nil _ _, isUrlText_word, by decide, by
    intro e he
    obtain rfl := List.mem_singleton.mp he
    exact ⟨by decide, isLine_of (by decide) rfl⟩⟩
  body := by
    intro d hd _
    rw [hiMessage_head] at hd
    cases hd
    exact .inl ⟨rfl, rfl⟩

theorem hiMessage_keepsAlive : KeepsAlive hiMessage :=
  ⟨3, 1, 1, _, hiMessage_isMessage, rfl, rfl⟩

theorem lastMessage_head : init.readHead lastMessage.head 3 1 1 =
    .ok ⟨0, 3, 1, 1, 0, false, 2, { Flags.none with
      chunked := true
      transferEncoding := true
      connectionClose := true }, false⟩ := rfl

theorem lastMessage_isHead : IsHead lastMessage.head 3 1 1 :=
  ⟨by decide, List.cons_ne_nil _ _, isUrlText_word, by decide, by
    intro e he
    rcases List.mem_cons.mp he with rfl | he
    · exact ⟨by decide, isLine_of (by decide) rfl⟩
    · obtain rfl := List.mem_singleton.mp he
      exact ⟨by decide, isLine_of (by decide) rfl⟩⟩

theorem isSize_digit {b : UInt8} (hb : isHex b) {n : Nat} (hn : numeral 16 hexDigit [b] = n) :
    IsSize [b] n := by
  refine ⟨List.cons_ne_nil b [], fun b' hb' => ?_, hn⟩
  obtain rfl := List.mem_singleton.mp hb'
  exact hb

theorem lastMessage_isMessage : IsMessage lastMessage 3 1 1 where
  head := lastMessage_isHead
  body := by
    intro d hd _
    rw [lastMessage_head] at hd
    cases hd
    refine ⟨rfl, ?_, ⟨⟨isSize_digit rfl rfl, Nat.two_pow_pos 64, by simp⟩, rfl⟩, ?_⟩
    · intro c hc
      obtain rfl := List.mem_singleton.mp hc
      refine ⟨⟨isSize_digit rfl rfl, by decide, fun e he => ?_⟩, List.cons_ne_nil _ _⟩
      obtain rfl := List.mem_singleton.mp he
      refine ⟨List.cons_ne_nil _ _, by decide, fun value hvalue => ?_⟩
      obtain rfl := Option.some.inj hvalue
      decide
    · intro e he
      obtain rfl := List.mem_singleton.mp he
      exact ⟨by decide, isLine_of (by decide) rfl⟩

theorem lastMessage_read : readMessage lastMessage 3 1 1 =
    .ok ⟨0, 3, 1, 1, 0, false, 2, { Flags.none with
      chunked := true
      transferEncoding := true
      connectionClose := true
      trailing := true }, false⟩ := rfl

theorem messages_parse_two :
    (llhttp.parse llhttp.init
        [hiMessage.bytes, lastMessage.bytes.take 20, lastMessage.bytes.drop 20]).2
      = resultCode (readMessage lastMessage 3 1 1) ∧
      ∀ e, readMessage lastMessage 3 1 1 = .ok e →
        start.parsed [hiMessage.bytes, lastMessage.bytes.take 20, lastMessage.bytes.drop 20]
          = messagesEvents init ([hiMessage] ++ [lastMessage]) := by
  refine messages_parse (fun m hm => ?_) lastMessage_isMessage (by simp)
  obtain rfl := List.mem_singleton.mp hm
  exact hiMessage_keepsAlive

/-- **Behind a message that closes the connection** any byte but those of a line end is an error. -/
theorem closed_rejects (d : Internal) {x : Bytes} (h : ∃ b ∈ x, b ≠ 10 ∧ b ≠ 13) :
    Rejects machine ⟨.closed, 0, none, d⟩ x 5 := by
  have htake : ∀ b, b = 10 || b = 13 → machine.glide 1 .closed b = some .closed :=
    Machine.glide_all rfl 0 rfl rfl
  have hbad : ∀ b, !(b = 10 || b = 13) → machine.glide 1 .closed b = some .invokeTestLenientFlags3 :=
    Machine.glide_all rfl 1 rfl rfl
  induction x with
  | nil =>
      obtain ⟨b, hb, -⟩ := h
      cases hb
  | cons a x ih =>
      by_cases ha : a = 10 ∨ a = 13
      · have hgo := Machine.glide_steps (htake a (by simpa using ha)) (none : Option Span) d x
        refine hgo.rejects (ih ?_)
        obtain ⟨b, hb, hne⟩ := h
        rcases List.mem_cons.mp hb with rfl | hb
        · exact absurd ha (not_or.mpr hne)
        · exact ⟨b, hb, hne⟩
      · have hgo := Machine.glide_steps (hbad a (by simpa using ha)) (none : Option Span) d x
        have hlenient := Machine.invoke_steps (m := machine) (l := .invokeTestLenientFlags3) rfl
          (none : Option Span) d x
        exact (hgo.trans hlenient).rejects (.of_stop rfl)

end Rslinker.Internal
