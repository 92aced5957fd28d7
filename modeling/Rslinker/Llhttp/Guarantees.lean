import Rslinker.Llhttp.RoundTrip

set_option autoImplicit false

/-! # Inputs that are errors

What a connection may not send: a head with two framings, a chunk whose size does not fit in 64 bits,
and a request behind one that closes the connection. llhttp finds each of them, in whatever pieces
they come.

They are stated with the number of the error, or the numbers there may be, since `execute` of
`RequestParser` returns it. A pause (22) is none of them.
-/

namespace Rslinker.Internal

open Scan

/-! ## Calls

What holds of every call, whatever the input is: it returns, and what it calls back lies in the
input. The error of a whole input is that of its bytes, so the results below may be about inputs in
any pieces. -/

/-- **A call stays inside of its input.** From every state that calls can lead to, and for every piece
of input, `llhttp_execute` returns; the spans that it calls back lie in the piece, one behind the
other, and have only the bytes of their kind. -/
theorem execute_in_bounds (s : llhttp.State) (bytes : Bytes) :
    (scanner.execute (scanner.fuel bytes) s.state bytes).isSome ∧
      Ordered 0 (s.call bytes).2.1 bytes.length ∧
      ∀ k start stop, .span k start stop ∈ (s.call bytes).2.1 →
        ∀ b ∈ piece bytes start stop, (spanBytes k).has b := by
  obtain ⟨r, hr, -⟩ := execute_ok s.ok bytes
  refine ⟨by rw [hr]; rfl, call_ordered s bytes, fun k start stop hmem => ?_⟩
  exact callback_bytes s bytes hmem

/-- The error of an input, whatever its pieces are. -/
theorem parse_of_rejects {reads : List Bytes} {errno : Nat}
    (h : Rejects machine (startConfig init) reads.flatten errno) :
    (llhttp.parse llhttp.init reads).2 = errno := by
  obtain ⟨es, c, z, reason, resume, hfails⟩ := h
  obtain ⟨-, -, hcode, -⟩ := Resting.parse_of_fails start_waits hfails
  rw [parse_code, hcode]

/-! ## Two framings

A message with two framings ends at one place for one reader and at another for the next, which is
what request smuggling is made of. Each of the two fields sets a flag that stays, and each is an
error when the flag of the other is there, so whichever comes second is found. -/

/-- The flags of the two framings stay. -/
theorem field_keeps {d d' : Internal} {name value : Bytes} (h : d.field name value = .ok d') :
    (d.flags.contentLength = true → d'.flags.contentLength = true) ∧
      (d.flags.transferEncoding = true → d'.flags.transferEncoding = true) := by
  cases field_step h with
  | plain | upgrade => exact ⟨id, id⟩
  | connection =>
      rw [addOptions_eq]
      exact ⟨id, id⟩
  | contentLength => exact ⟨fun _ => rfl, id⟩
  | transferEncoding => exact ⟨id, fun _ => rfl⟩

theorem fields_keep {d d' : Internal} {es : List (Bytes × Bytes)} (h : d.fields es = .ok d') :
    (d.flags.contentLength = true → d'.flags.contentLength = true) ∧
      (d.flags.transferEncoding = true → d'.flags.transferEncoding = true) := by
  induction es generalizing d with
  | nil =>
      cases h
      exact ⟨id, id⟩
  | cons e es ih =>
      rw [fields] at h
      cases hfield : d.field e.1 e.2 with
      | error errno =>
          rw [hfield] at h
          cases h
      | ok d₁ =>
          rw [hfield] at h
          obtain ⟨hlength, hcoding⟩ := field_keeps hfield
          obtain ⟨hlength', hcoding'⟩ := ih h
          exact ⟨hlength' ∘ hlength, hcoding' ∘ hcoding⟩

/-- A `Content-Length` sets its flag. -/
theorem field_contentLength {d d' : Internal} {name value : Bytes} (hname : nameState name = 2)
    (h : d.field name value = .ok d') : d'.flags.contentLength = true := by
  unfold field fieldValue at h
  simp only [hname] at h
  repeat' split at h
  all_goals first | contradiction | exact absurd trivial ‹¬True› | (cases h; rfl)

/-- A `Transfer-Encoding` sets its flag, unless its value is empty. -/
theorem field_transferEncoding {d d' : Internal} {name value : Bytes} (hname : nameState name = 3)
    (hvalue : value ≠ []) (h : d.field name value = .ok d') : d'.flags.transferEncoding = true := by
  unfold field fieldValue at h
  simp only [hname, hvalue] at h
  repeat' split at h
  all_goals first | contradiction | (cases h; rfl)

/-- The flags of the framings tell which fields there have been. -/
theorem fields_flags {d d' : Internal} {es : List (Bytes × Bytes)} (h : d.fields es = .ok d')
    {e : Bytes × Bytes} (he : e ∈ es) :
    (nameState e.1 = 2 → d'.flags.contentLength = true) ∧
      (nameState e.1 = 3 → e.2 ≠ [] → d'.flags.transferEncoding = true) := by
  induction es generalizing d with
  | nil => cases he
  | cons e' es ih =>
      rw [fields] at h
      cases hfield : d.field e'.1 e'.2 with
      | error errno =>
          rw [hfield] at h
          cases h
      | ok d₁ =>
          rw [hfield] at h
          rcases List.mem_cons.mp he with rfl | he
          · obtain ⟨hlength, hcoding⟩ := fields_keep h
            exact ⟨fun hname => hlength (field_contentLength hname hfield),
              fun hname hvalue => hcoding (field_transferEncoding hname hvalue hfield)⟩
          · exact ih h he

theorem fieldValue_errors {d : Internal} {value : Bytes} {errno : Nat}
    (h : d.fieldValue value = .error errno) : errno ∈ [4, 11, 15] := by
  unfold fieldValue at h
  repeat' split at h
  all_goals
    cases h
    try decide

/-- The errors of a field: a second `Content-Length`, an invalid one, an invalid `Transfer-Encoding`. -/
theorem field_errors {d : Internal} {name value : Bytes} {errno : Nat}
    (h : d.field name value = .error errno) : errno ∈ [4, 11, 15] := by
  simp only [field] at h
  split at h
  · cases h
    decide
  split at h
  · cases h
    decide
  split at h
  · split at h
    · cases h
      decide
    · cases h
  · exact fieldValue_errors h

theorem fields_errors {d : Internal} {es : List (Bytes × Bytes)} {errno : Nat}
    (h : d.fields es = .error errno) : errno ∈ [4, 11, 15] := by
  induction es generalizing d with
  | nil => cases h
  | cons e es ih =>
      rw [fields] at h
      cases hfield : d.field e.1 e.2 with
      | error code =>
          rw [hfield] at h
          cases h
          exact field_errors hfield
      | ok d' =>
          rw [hfield] at h
          exact ih h

/-- The errors of a head are those of its fields and 7, that of its URL. None of them is a pause. -/
theorem readHead_errors {d : Internal} {head : Head} {code major minor errno : Nat}
    (h : d.readHead head code major minor = .error errno) : errno ∈ [4, 7, 11, 15] := by
  unfold readHead at h
  split at h
  · have hmem := fields_errors h
    simp only [List.mem_cons, List.not_mem_nil, or_false] at hmem ⊢
    omega
  · cases h
    decide

/-- **No head has two framings.** A head with a `Content-Length` and with a `Transfer-Encoding` that is
not empty, in whatever order and among whatever other fields, is an error, in whatever pieces it
comes: that of a `Content-Length` (4 and 11) or of a `Transfer-Encoding` (15), unless the URL is
already one (7). -/
theorem two_framings_rejected {head : Head} {code major minor : Nat}
    (h : IsHead head code major minor) (hlength : ∃ e ∈ head.fields, nameState e.1 = 2)
    (hcoding : ∃ e ∈ head.fields, nameState e.1 = 3 ∧ e.2 ≠ []) {reads : List Bytes} {y : Bytes}
    (hreads : reads.flatten = head.bytes ++ y) :
    (llhttp.parse llhttp.init reads).2 ∈ [4, 7, 11, 15] := by
  have hout := head_outcome init_fresh h y
  cases hread : init.readHead head code major minor with
  | error errno =>
      rw [hread, ← hreads] at hout
      rw [parse_of_rejects hout]
      exact readHead_errors hread
  | ok d =>
      -- the flags would exclude each other
      exfalso
      have hframed := readHead_framed init_fresh hread
      unfold readHead at hread
      split at hread
      · obtain ⟨e, he, hname⟩ := hlength
        obtain ⟨e', he', hname', hvalue⟩ := hcoding
        have hflag := (fields_flags hread he).1 hname
        have hflag' := (fields_flags hread he').2 hname' hvalue
        rw [hframed.exclusive hflag] at hflag'
        cases hflag'
      · cases hread

/-- `POST /a HTTP/1.1` with `Content-Length: 2` and `Transfer-Encoding: chunked`. -/
def twoFramings : Head :=
  { hiMessage.head with fields := hiMessage.head.fields ++ lastMessage.head.fields }

theorem twoFramings_isHead : IsHead twoFramings 3 1 1 where
  method := hiMessage_isMessage.head.method
  url_ne := hiMessage_isMessage.head.url_ne
  url := hiMessage_isMessage.head.url
  version := hiMessage_isMessage.head.version
  fields := by
    intro e he
    rcases List.mem_append.mp he with he | he
    · exact hiMessage_isMessage.head.fields e he
    · exact lastMessage_isHead.fields e he

theorem two_framings_rejected_post :
    (llhttp.parse llhttp.init [twoFramings.bytes.take 9, twoFramings.bytes.drop 9]).2
      ∈ [4, 7, 11, 15] :=
  two_framings_rejected (y := []) twoFramings_isHead ⟨_, List.mem_cons_self, rfl⟩
    ⟨_, List.mem_cons_of_mem _ List.mem_cons_self, rfl, List.cons_ne_nil _ _⟩ (by simp)

/-! ## Sizes of chunks

A size that is cut off at 64 bits would be another size, and the rest of the chunk would be read as
something else. The check is made digit by digit, before the digit is added. -/

/-- **A chunk whose size does not fit in 64 bits** is the error 12, behind whatever chunks it comes and
in whatever pieces. -/
theorem oversized_chunk_rejected {head : Head} {code major minor : Nat}
    (h : IsHead head code major minor) {d : Internal}
    (hread : init.readHead head code major minor = .ok d)
    (hchunked : d.announce.afterHeadersComplete.2 = 2) {cs : List Chunk}
    (hcs : ∀ c ∈ cs, IsChunk c ∧ c.data ≠ []) {x : Bytes} {n : Nat} (hx : IsSize x n)
    (hover : 2 ^ 64 ≤ n) {reads : List Bytes} {y : Bytes}
    (hreads : reads.flatten = head.bytes ++ (cs.flatMap chunkBytes ++ (x ++ y))) :
    (llhttp.parse llhttp.init reads).2 = 12 := by
  have hout := head_outcome init_fresh h (cs.flatMap chunkBytes ++ (x ++ y))
  rw [hread, ← hreads] at hout
  obtain ⟨s, hsteps⟩ := hout
  have hcode : ({ d with headerState := s } : Internal).announce.afterHeadersComplete.2 = 2 := by
    have halike : Alike ({ d with headerState := s } : Internal).announce d.announce :=
      alike_announce rfl
    rw [halike.afterHeadersComplete, hchunked]
  have hafter := Machine.invoke_steps (m := machine) (l := .invokeAfterHeadersComplete) rfl
    (none : Option Span) ({ d with headerState := s } : Internal).announce
    (cs.flatMap chunkBytes ++ (x ++ y))
  rw [hcode] at hafter
  have hbegin := (headersComplete_steps _ (cs.flatMap chunkBytes ++ (x ++ y))).trans
    (hafter.trans (.of_quiet rfl))
  have hchunks := chunks_steps hcs ({ d with headerState := s } : Internal).announce (x ++ y)
  exact parse_of_rejects (hsteps.rejects (hbegin.rejects (hchunks.rejects
    (size_rejects hx hover rfl y))))

def hugeSize : Bytes := 49 :: List.replicate 16 48

theorem hugeSize_isSize : IsSize hugeSize (2 ^ 64) := by
  refine ⟨List.cons_ne_nil _ _, fun b hb => ?_, rfl⟩
  rcases List.mem_cons.mp hb with rfl | hb
  · rfl
  · obtain rfl := List.eq_of_mem_replicate hb
    rfl

theorem oversized_chunk_rejected_huge :
    (llhttp.parse llhttp.init [lastMessage.head.bytes, hugeSize]).2 = 12 := by
  have hnone : ∀ c ∈ ([] : List Chunk), IsChunk c ∧ c.data ≠ [] := by simp
  exact oversized_chunk_rejected (y := []) lastMessage_isHead lastMessage_head rfl hnone
    hugeSize_isSize (Nat.le_refl _) (by simp)

/-! ## Closed connections

Behind `Connection: close`, or a message of HTTP/1.0 without `keep-alive`, the sender has nothing
more to send. Bytes that come all the same are not read as a request. -/

/-- **Behind a message that closes the connection** every byte but those of line ends is the error 5,
behind whatever messages and in whatever pieces. -/
theorem after_close_rejected {ms : List Message} (h : ∀ m ∈ ms, KeepsAlive m) {m : Message}
    {code major minor : Nat} (hm : IsMessage m code major minor) {e : Internal}
    (hread : readMessage m code major minor = .ok e) (hclose : e.ending = .close)
    {reads : List Bytes} {y : Bytes} (hy : ∃ b ∈ y, b ≠ 10 ∧ b ≠ 13)
    (hreads : reads.flatten = (ms ++ [m]).flatMap Message.bytes ++ y) :
    (llhttp.parse llhttp.init reads).2 = 5 := by
  have hout := messages_outcome init_fresh h hm y
  rw [hread, ← hreads] at hout
  obtain ⟨d, halike, hended⟩ := hout
  rw [Ended, halike.ending, hclose] at hended
  exact parse_of_rejects (hended.rejects (closed_rejects _ hy))

theorem after_close_rejected_get :
    (llhttp.parse llhttp.init [hiMessage.bytes, lastMessage.bytes ++ [71], [69, 84]]).2 = 5 := by
  have halive : ∀ m ∈ [hiMessage], KeepsAlive m := by
    intro m hm
    obtain rfl := List.mem_singleton.mp hm
    exact hiMessage_keepsAlive
  exact after_close_rejected (y := [71, 69, 84]) halive lastMessage_isMessage lastMessage_read rfl
    ⟨71, List.mem_cons_self, by decide⟩ (by simp)

end Rslinker.Internal
