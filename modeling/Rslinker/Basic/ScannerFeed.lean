import Rslinker.Basic.ScannerCalls

set_option autoImplicit false

/-! # One piece after the other

`Resting.parse` calls a scanner with one piece of the input after the other, up to the first error.
What is called back of a span is its bytes here, so that the pieces are not needed to read it. The
result is that of reading the whole input byte by byte (`parse_of_reads`, `parse_of_fails`), and so
it does not depend on the pieces (`parse_congr`).
-/

namespace Rslinker.Scan

variable {N D K R : Type*}

/-! ## Calls without positions

A span that is cut by the end of a piece is called back in parts. As events, which are single
bytes, the parts are the same as the whole, and so `events` is what two divisions of one input have
in common. -/

inductive Call (K R : Type*)
  | span (k : K) (bytes : Bytes)
  | report (r : R)
  deriving DecidableEq

def Out.call (buf : Bytes) : Out K R → Call K R
  | .span k start stop => .span k (piece buf start stop)
  | .report r => .report r

def Call.events : Call K R → List (Event K R)
  | .span k bytes => bytes.map (.byte k)
  | .report r => [.report r]

/-- What calls report byte by byte. -/
def callEvents (calls : List (Call K R)) : List (Event K R) := calls.flatMap Call.events

@[simp] theorem callEvents_nil : callEvents ([] : List (Call K R)) = [] := rfl

@[simp] theorem callEvents_span (k : K) (bytes : Bytes) (calls : List (Call K R)) :
    callEvents (.span k bytes :: calls) = bytes.map (.byte k) ++ callEvents calls := rfl

@[simp] theorem callEvents_report (r : R) (calls : List (Call K R)) :
    callEvents (.report r :: calls) = .report r :: callEvents calls := rfl

theorem callEvents_append (calls calls' : List (Call K R)) :
    callEvents (calls ++ calls') = callEvents calls ++ callEvents calls' := List.flatMap_append

theorem callEvents_map (buf : Bytes) (outs : List (Out K R)) :
    callEvents (outs.map (Out.call buf)) = events buf outs := by
  rw [callEvents, events, List.flatMap_map]
  congr 1
  funext out
  cases out <;> rfl

/-! ## Pieces

The pieces are fed until one of them is an error, and those behind it are not looked at. An empty
piece does nothing. The lemmas say what the whole of the calls is for an input that is read, for
one that fails, and for one of which only the beginning is known. -/

variable [DecidableEq K] {sc : Scanner N D K R}

namespace Resting

/-- What one piece after the other calls back, up to the first error, the state after this and the
error. -/
def parse (s : Resting sc) : List Bytes → List (List (Call K R)) × Resting sc × Nat
  | [] => ([], s, 0)
  | buf :: bufs =>
      let r := s.call buf
      let calls := r.2.1.map (Out.call buf)
      if r.2.2 = 0 then (calls :: (parse r.1 bufs).1, (parse r.1 bufs).2)
      else ([calls], r.1, r.2.2)

def parsed (s : Resting sc) (bufs : List Bytes) : List (Event K R) :=
  callEvents (s.parse bufs).1.flatten

variable {s t : Resting sc} {c d : Config N D K} {es : List (Event K R)} {buf : Bytes}
  {bufs : List Bytes} {errno : Nat} {reason : String} {resume : Option N}

theorem parse_cons_ok (h : (s.call buf).2.2 = 0) (bufs : List Bytes) :
    (s.parse (buf :: bufs)).2 = ((s.call buf).1.parse bufs).2 ∧
      s.parsed (buf :: bufs) = events buf (s.call buf).2.1 ++ (s.call buf).1.parsed bufs := by
  simp only [parsed, parse, h, if_true, true_and]
  rw [List.flatten_cons, callEvents_append, callEvents_map]

theorem parse_cons_error (h : (s.call buf).2.2 ≠ 0) (bufs : List Bytes) :
    (s.parse (buf :: bufs)).2 = ((s.call buf).1, (s.call buf).2.2) ∧
      s.parsed (buf :: bufs) = events buf (s.call buf).2.1 := by
  simp only [parsed, parse, h, if_false, true_and]
  rw [List.flatten_cons, List.flatten_nil, List.append_nil, callEvents_map]

/-- The state is at a configuration that waits for a byte. -/
structure WaitsAt (s : Resting sc) (c : Config N D K) : Prop where
  at_config : s.state.At c
  waits : sc.move c none = .block

theorem WaitsAt.reads_nil (h : s.WaitsAt c) : Reads sc.toMachine c [] [] c := ⟨.refl c [], h.waits⟩

/-- **An input is read**, whatever its pieces are. -/
theorem parse_of_reads (hat : s.WaitsAt c) (h : Reads sc.toMachine c bufs.flatten es d) :
    (s.parse bufs).2.2 = 0 ∧ (s.parse bufs).2.1.WaitsAt d ∧ s.parsed bufs = es ∧
      (s.parse bufs).2.1.state.reason = s.state.reason := by
  induction bufs generalizing s c es with
  | nil =>
      obtain ⟨rfl, rfl⟩ := hat.reads_nil.unique h
      exact ⟨rfl, hat, rfl, rfl⟩
  | cons buf bufs ih =>
      obtain ⟨es₁, c', es₂, rfl, hbuf, hbufs⟩ := sc.ends.reads_append_iff.mp h
      obtain ⟨hok, hat', hevents, hreason⟩ := call_of_reads hat.at_config hbuf
      obtain ⟨hok', hat'', hevents', hreason'⟩ := ih ⟨hat', hbuf.waits⟩ hbufs
      obtain ⟨hparse, hparsed⟩ := parse_cons_ok hok bufs
      rw [hparse, hparsed, hevents, hevents', hreason', hreason]
      exact ⟨hok', hat'', rfl, rfl⟩

/-- **An error is found**, whatever the pieces are. What the last piece has of an open span is
lost. -/
theorem parse_of_fails (hat : s.WaitsAt c) {y : Bytes}
    (h : Fails sc.toMachine c bufs.flatten es d y errno reason resume) :
    ∃ lost, es = s.parsed bufs ++ lost ∧ (s.parse bufs).2.2 = errno ∧ errno ≠ 0 ∧
      Lost d.span lost ∧
      (s.parse bufs).2.1.state = ⟨resume, d.index, d.span, errno, reason, d.data⟩ := by
  induction bufs generalizing s c es with
  | nil => exact absurd h hat.reads_nil.not_fails
  | cons buf bufs ih =>
      rcases sc.ends.fails_append_iff.mp h with ⟨w, -, hbuf⟩ | ⟨es₁, c', es₂, rfl, hbuf, hbufs⟩
      · obtain ⟨lost, hevents, hcode, hne, hlost, hstate⟩ := call_of_fails hat.at_config hbuf
        obtain ⟨hparse, hparsed⟩ := parse_cons_error (hcode ▸ hne) bufs
        rw [hparse, hparsed]
        exact ⟨lost, hevents, hcode, hne, hlost, hstate⟩
      · obtain ⟨hok, hat', hevents, -⟩ := call_of_reads hat.at_config hbuf
        obtain ⟨lost, hes, hrest⟩ := ih ⟨hat', hbuf.waits⟩ hbufs
        obtain ⟨hparse, hparsed⟩ := parse_cons_ok hok bufs
        rw [hparse, hparsed, hevents]
        exact ⟨lost, by rw [hes, List.append_assoc], hrest⟩

/-- **Before a point that is reached there is no error**, and what has been called back are the first
of the events up to there. -/
theorem parse_before (hat : s.WaitsAt c) {v y : Bytes}
    (h : Steps sc.toMachine c (bufs.flatten ++ v) es d y) (hlt : y.length < v.length) :
    (s.parse bufs).2.2 = 0 ∧ s.parsed bufs <+: es := by
  rcases sc.ends.reads_or_fails c bufs.flatten with
    ⟨fs, e, hreads⟩ | ⟨fs, e, w, errno, reason, resume, hfails⟩
  · obtain ⟨hcode, -, hparsed, -⟩ := parse_of_reads hat hreads
    obtain ⟨gs, rfl, -⟩ := (hreads.steps.append v).compare h (by simpa using hlt)
    exact ⟨hcode, gs, by rw [hparsed]⟩
  · have hlate := hfails.append v
    obtain ⟨gs, -, hsteps⟩ := hlate.steps.compare h (by rw [List.length_append]; omega)
    -- at the error the moves have ended, and yet they go on to a later point
    obtain ⟨-, -, rfl⟩ := hsteps.eq_of_ends hlate.ends
    rw [List.length_append] at hlt
    omega

/-- **What is called back contains the events up to a report that is reached.** -/
theorem parse_behind (hat : s.WaitsAt c) {y : Bytes} {r : R}
    (h : Steps sc.toMachine c bufs.flatten (es ++ [.report r]) d y) :
    es ++ [.report r] <+: s.parsed bufs := by
  rcases sc.ends.reads_or_fails c bufs.flatten with
    ⟨fs, e, hreads⟩ | ⟨fs, e, w, errno, reason, resume, hfails⟩
  · obtain ⟨-, -, hparsed, -⟩ := parse_of_reads hat hreads
    obtain ⟨gs, rfl, -⟩ := hreads.steps.determined hreads.ends h
    exact ⟨gs, hparsed.symm⟩
  · obtain ⟨lost, hparsed, -, -, hlost, -⟩ := parse_of_fails hat hfails
    obtain ⟨gs, rfl, -⟩ := hfails.steps.determined hfails.ends h
    -- the report is not lost
    rcases List.append_eq_append_iff.mp hparsed with ⟨more, hfront, -⟩ | ⟨more, hback, hmore⟩
    · exact ⟨more, hfront.symm⟩
    · rcases List.eq_nil_or_concat more with rfl | ⟨more, e, rfl⟩
      · rw [List.append_nil] at hback
        exact ⟨[], by rw [List.append_nil, hback]⟩
      · rw [List.concat_eq_append, ← List.append_assoc] at hback
        obtain ⟨-, hlast⟩ := List.append_inj' hback rfl
        obtain rfl : Event.report r = e := List.head_eq_of_cons_eq hlast
        refine absurd ?_ (hlost.bytes r)
        rw [hmore]
        simp

/-- **The pieces do not matter.** Two divisions of one input lead to the same state and the same
error. Without an error they call back the same bytes and reports. -/
theorem parse_congr (hat : s.WaitsAt c) {bufs' : List Bytes} (h : bufs.flatten = bufs'.flatten) :
    (s.parse bufs).2 = (s.parse bufs').2 ∧
      ((s.parse bufs).2.2 = 0 → s.parsed bufs = s.parsed bufs') := by
  rcases sc.ends.reads_or_fails c bufs.flatten with
    ⟨es, d, hreads⟩ | ⟨es, d, y, errno, reason, resume, hfails⟩
  · obtain ⟨hcode, hd, hparsed, hreason⟩ := parse_of_reads hat hreads
    obtain ⟨hcode', hd', hparsed', hreason'⟩ := parse_of_reads hat (h ▸ hreads)
    have hstate := eq_of_at hd.at_config hd'.at_config (hreason.trans hreason'.symm)
    exact ⟨Prod.ext hstate (hcode.trans hcode'.symm), fun _ => hparsed.trans hparsed'.symm⟩
  · obtain ⟨lost, -, hcode, hne, -, hstate⟩ := parse_of_fails hat hfails
    obtain ⟨lost', -, hcode', -, -, hstate'⟩ := parse_of_fails hat (h ▸ hfails)
    refine ⟨Prod.ext (ext (hstate.trans hstate'.symm)) (hcode.trans hcode'.symm), ?_⟩
    intro hzero
    exact absurd (hcode.symm.trans hzero) hne

end Resting

end Rslinker.Scan
