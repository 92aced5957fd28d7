import Rslinker.Client.HttpForward
import Rslinker.Llhttp.Behind
import Rslinker.Llhttp.Documented

set_option autoImplicit false

/-! # Links in front of llhttp

The results about the loop of an HTTP channel leave llhttp open, with what they need of it as
hypotheses. An `HttpLink` is what the channel of a link is started with, and its llhttp is that of the
repository, so that the hypotheses are theorems. What a peer sends is then a matter of bytes: `Brings`
says that the reads bring the bytes `x` and go on with `tail`, and end with the read that completes
`x`. If llhttp reads `x` as a head (`Internal.ReadsHead`), it reports the head in these reads, however
they are divided.

The loop is left by `break` exactly when the reads are accepted (`done_iff`), and then it has put one
request line, lines of headers, the blank line and body data (`puts_shape`).
-/

namespace Rslinker

open Internal HttpChannel

/-- What the channel of an `http` link is started with, and what it finds outside. -/
structure HttpLink where
  autoOverride : Bool
  override_ : List (Bytes × Bytes)
  /-- They are the entries of a `HashMap<Ascii<String>, String>`. -/
  distinct : Distinct override_
  host : Bytes
  iter : Headers → Headers
  /-- The order of a `HashMap` is some order. -/
  iter_perm : ∀ headers, (iter headers).Perm headers
  logsInfo : Bool

/-- The channel of the link, with llhttp. -/
abbrev HttpLink.setup (link : HttpLink) : HttpSetup :=
  ⟨llhttp, link.autoOverride, link.override_, link.host, link.iter, link.logsInfo⟩

/-- The sockets work, and the last read from the peer completes the bytes `x` and goes on with
`tail`. -/
structure Brings (events : List HttpEvent) (x tail : Bytes) : Prop where
  works : ∀ e ∈ events, e.Works
  bytes : (reads events).flatten = x ++ tail
  last : (reads events).dropLast.flatten.length < x.length

/-- What llhttp calls back, read by read. -/
def llhttpReports (events : List HttpEvent) : List (List Callback) :=
  (llhttp.parse llhttp.init (reads events)).1

/-- What `llhttp_execute` returns for the last read. -/
def llhttpErrno (events : List HttpEvent) : Nat := (llhttp.parse llhttp.init (reads events)).2

/-- Everything that has been called back. -/
def llhttpTally (events : List HttpEvent) : Tally :=
  Tally.empty.addAll (llhttpReports events).flatten

namespace HttpLink

variable {link : HttpLink} {events : List HttpEvent} {x tail : Bytes} {head : Head} {d : Internal}

/-- `llhttp_execute` returns `HPE_OK` for all reads, and the bytes that are unwrapped are UTF-8. -/
structure Accepts (link : HttpLink) (events : List HttpEvent) : Prop where
  errno : llhttpErrno events = 0
  readable : StepsMeet (advance link.setup) (Readable link.setup) (new link.setup.llhttp) events

theorem setup_documented (link : HttpLink) : link.setup.llhttp.Documented where
  ascii _ _ _ hcb _ hspan _ hb := execute_ascii hcb hspan hb
  value _ _ _ hspan := execute_value hspan
  order _ _ hreported hversion := reported_order hreported hversion

theorem overridden_eq (link : HttpLink) : link.setup.overridden = link.setup.due :=
  HttpSetup.overridden_eq_due link.distinct

/-- The reads of a head are parsed. -/
theorem parses (link : HttpLink) (h : ReadsHead x head d) (hbrings : Brings events x tail) :
    ∃ after, link.setup.llhttp.Parses (reads events) head (llhttpReports events) after
      (llhttpErrno events) :=
  h.parses hbrings.bytes hbrings.last

/-- **When the loop is left.** -/
theorem done_iff (h : ReadsHead x head d) (hbrings : Brings events x tail) :
    (∃ c, loop link.setup (new link.setup.llhttp) events = .done c) ↔ link.Accepts events := by
  obtain ⟨after, hparses⟩ := link.parses h hbrings
  constructor
  · rintro ⟨c, hdone⟩
    exact ⟨errno_of_done rfl Bool.false_ne_true hparses.parse hparses.last hdone,
      readable_of_done link.setup_documented hdone⟩
  · rintro ⟨herrno, hread⟩
    rw [herrno] at hparses
    exact (parsed_forwards link.setup_documented hbrings.works hparses hread).1

/-- **What the loop puts** when it is left. -/
theorem puts_shape (h : ReadsHead x head d) (hbrings : Brings events x tail)
    (haccepts : link.Accepts events) :
    ∃ method url version lines,
      puts link.setup (new link.setup.llhttp) events = .requestLine method url version ::
        (asLines lines ++ [.blank, .content (llhttpTally events).body]) ∧
      lines.Perm ((entries head (llhttpReports events)).map link.setup.due) ∧
      (method = head.method ∧ url = head.url ∧ version = head.version ↔
        LineKept head (llhttpReports events)) := by
  obtain ⟨after, hparses⟩ := link.parses h hbrings
  obtain ⟨method, url, version, lines, hforwarded, hperm, hline⟩ :=
    hparses.forwarded_shape link.iter_perm
  rw [link.overridden_eq] at hperm
  refine ⟨method, url, version, lines, ?_, hperm, hline⟩
  have hbody : (llhttpTally events).body = bodyData after := by
    obtain ⟨report, hspelled, heq⟩ := hparses.spelled
    rw [llhttpTally, heq, Tally.addAll_append, Tally.body_addAll, hspelled.tally, List.nil_append]
  rw [haccepts.errno] at hparses
  rw [(parsed_forwards link.setup_documented hbrings.works hparses haccepts.readable).2, hforwarded,
    hbody]

/-- Text is readable. -/
theorem readable_of_valid (hvalid : ∀ data ∈ reads events, Utf8.valid data) :
    StepsMeet (advance link.setup) (Readable link.setup) (new link.setup.llhttp) events := by
  refine stepsMeet_of_forall (fun e he c => ?_) _
  rcases e with ⟨read, write⟩ | ⟨data | _, writeLine, writeHeaders⟩
  · trivial
  · intro _
    have hdata : Utf8.valid data := hvalid data (List.mem_filterMap.mpr ⟨_, he, rfl⟩)
    split
    · exact hdata
    · exact link.setup_documented.value_valid hdata
  · trivial

/-! ## A request in one read

The failing inputs and the examples below are requests that come in one read, written out byte by byte
and read by llhttp. -/

/-- A link without configured overrides. -/
def plain (autoOverride : Bool) (host : Bytes) : HttpLink :=
  ⟨autoOverride, [], .nil, host, id, fun _ => .refl _, false⟩

theorem brings_inOneRead (head : Head) (tail : Bytes) :
    Brings (inOneRead head tail) head.bytes tail where
  works := inOneRead_works head tail
  bytes := by simp [inOneRead, reads, HttpEvent.data]
  last := by simp [inOneRead, reads, HttpEvent.data, Head.bytes]

/-- A `GET` request that llhttp reads. -/
theorem readsHead_getHead (fields : List (Bytes × Bytes)) (hfields : AreFields fields) {d : Internal}
    (hread : init.readHead (getHead fields) 1 1 1 = .ok d) :
    ∃ s, ReadsHead (getHead fields).bytes (getHead fields)
      ({ d with headerState := s } : Internal).announce := by
  have hmethod : ([71, 69, 84], 1) ∈ httpMethods := by decide
  have hversion : ([49, 46, 49], 1, 1) ∈ httpVersions := by decide
  have hhead : IsHead (getHead fields) 1 1 1 :=
    ⟨hmethod, List.cons_ne_nil _ _, by simp [IsUrlText, getHead], hversion, hfields⟩
  exact hhead.reads hread

end HttpLink

end Rslinker
