import Rslinker.Llhttp.Phases
import Rslinker.Llhttp.RoundTrip

set_option autoImplicit false

/-! # The report of a head by llhttp

`Head.Spelled` says what a report of a head is, and `Llhttp.Parses` what the reads of a head bring.
Here both are shown of llhttp. `ReadsHead x head d` says that the nodes of llhttp lead over the bytes
`x` to the report of the end of a head, with the parts of `head` in the spans on the way and the data
`d` at the end. Whatever follows these bytes and however they are divided, the callbacks are a report
of the head then, with those of the bytes behind it (`ReadsHead.parses`).
-/

namespace Rslinker.Internal

open Scan

/-! ## The phases of a head

Between two calls llhttp is in a phase of the grammar. In front of the fields no field has been
reported, and behind the request line no part of it is reported any more before the end of the head.
So wherever the report of a head is cut, the request line comes before the rest. -/

def Phase.inLine : Phase → Bool
  | idle | method | url | version => true
  | _ => false

def Phase.inFields : Phase → Bool
  | name | value => true
  | _ => false

theorem after_inFields {p q : Phase} {r : Report} (hp : p.inFields) (h : q ∈ p.after r)
    (hr : r ≠ .headersComplete) :
    q.inFields ∧ r ≠ .methodComplete ∧ r ≠ .urlComplete ∧ r ≠ .versionComplete := by
  have hall : ∀ q ∈ p.after r,
      q.inFields ∧ r ≠ .methodComplete ∧ r ≠ .urlComplete ∧ r ≠ .versionComplete := by
    cases p <;> cases hp <;> cases r <;> simp_all [Phase.after, Phase.inFields]
  exact hall q h

theorem after_inLine {p q : Phase} {r : Report} (hp : p.inLine) (h : q ∈ p.after r) :
    q.inLine ∧ r ≠ .versionComplete ∧ r ≠ .headerValueComplete ∨
      q.inFields := by
  have hall : ∀ q ∈ p.after r,
      q.inLine ∧ r ≠ .versionComplete ∧ r ≠ .headerValueComplete ∨ q.inFields := by
    cases p <;> cases hp <;> cases r <;> simp [Phase.after, Phase.inFields, Phase.inLine]
  exact hall q h

variable {p q : Phase} {calls : List (Call Span Report)}

/-- Behind the request line. -/
theorem accepts_inFields (h : grammar.Accepts p calls q) (hp : p.inFields)
    (hnot : .report .headersComplete ∉ calls) :
    q.inFields ∧ .report .methodComplete ∉ calls ∧ .report .urlComplete ∉ calls ∧
      .report .versionComplete ∉ calls := by
  induction h with
  | nil => simp [hp]
  | span hspan _ ih =>
      obtain ⟨hq, hmethod, hurl, hversion⟩ := ih hp fun hmem => hnot (List.mem_cons_of_mem _ hmem)
      simp [hq, hmethod, hurl, hversion]
  | @report p p' q r calls hstep _ ih =>
      rw [List.mem_cons, not_or] at hnot
      obtain ⟨hp', hm, hu, hv⟩ := after_inFields hp hstep fun heq => hnot.1 (by rw [heq])
      obtain ⟨hq, hmethod, hurl, hversion⟩ := ih hp' hnot.2
      simp [hq, hmethod, hurl, hversion, hm.symm, hu.symm, hv.symm]

/-- In the request line, or with it and behind it. -/
theorem accepts_inLine (h : grammar.Accepts p calls q) (hp : p.inLine)
    (hnot : .report .headersComplete ∉ calls) :
    q.inFields ∨ q.inLine ∧ .report .versionComplete ∉ calls ∧
      .report .headerValueComplete ∉ calls := by
  induction h with
  | nil => simp [hp]
  | span hspan _ ih =>
      have hrest := ih hp fun hmem => hnot (List.mem_cons_of_mem _ hmem)
      simpa using hrest
  | @report p p' q r calls hstep h ih =>
      rw [List.mem_cons, not_or] at hnot
      rcases after_inLine hp hstep with ⟨hp', hv, hf⟩ | hp'
      · have hrest := ih hp' hnot.2
        simpa [hv.symm, hf.symm] using hrest
      · exact Or.inl (accepts_inFields h hp' hnot.2).1

/-! ## Calls -/

/-- What comes in front of the first `a` is determined. -/
theorem front_unique {α : Type*} {a : α} {front front' back back' : List α}
    (h : front ++ a :: back = front' ++ a :: back') (hfront : a ∉ front) (hfront' : a ∉ front') :
    front = front' := by
  rcases List.append_eq_append_iff.mp h with ⟨_ | ⟨b, more⟩, rfl, heq⟩ | ⟨_ | ⟨b, more⟩, rfl, heq⟩
  · simp
  · obtain ⟨rfl, -⟩ := List.cons.inj heq
    simp at hfront'
  · simp
  · obtain ⟨rfl, -⟩ := List.cons.inj heq
    simp at hfront

/-- The calls up to the end of a head are a report of it. -/
theorem spelled_of_accepts {head : Head} (h : grammar.Accepts .idle calls q)
    (hnot : .report .headersComplete ∉ calls)
    (htally : addEvents .empty (callEvents calls) =
      { Tally.empty with
        method := some head.method
        url := some head.url
        version := some head.version
        fields := head.fields }) :
    head.Spelled ((calls ++ [Call.report Report.headersComplete]).filterMap callback) where
  tally := by
    rw [addAll_filterMap, callEvents_append, addEvents_append, htally]
    rfl
  cut := by
    intro done rest heq
    obtain ⟨front, back, hsplit, rfl, rfl⟩ := List.filterMap_eq_append_iff.mp heq
    rw [report_mem_filterMap (r := .versionComplete) rfl,
      report_mem_filterMap (r := .headerValueComplete) rfl,
      report_mem_filterMap (r := .headersComplete) rfl,
      report_mem_filterMap (r := .methodComplete) rfl,
      report_mem_filterMap (r := .urlComplete) rfl,
      report_mem_filterMap (r := .versionComplete) rfl]
    rcases List.eq_nil_or_concat back with rfl | ⟨more, last, rfl⟩
    · exact Or.inr (by simp)
    · -- the cut is in front of the last call
      rw [List.concat_eq_append, ← List.append_assoc] at hsplit
      obtain ⟨rfl, hlast⟩ := List.append_inj' hsplit rfl
      cases hlast
      obtain ⟨mid, hfront, hmore⟩ := h.split
      rw [List.mem_append, not_or] at hnot
      rcases accepts_inLine hfront rfl hnot.1 with hmid | ⟨-, hversion, hvalue⟩
      · obtain ⟨-, hm, hu, hv⟩ := accepts_inFields hmore hmid hnot.2
        exact Or.inr (by simp [hm, hu, hv])
      · exact Or.inl ⟨hversion, hvalue, hnot.1⟩

/-! ## Heads -/

/-- llhttp reads these bytes as a head, the first one of a connection. -/
structure ReadsHead (x : Bytes) (head : Head) (d : Internal) : Prop where
  steps : ∃ es, Steps machine (startConfig init) x es ⟨.invokeOnHeadersComplete1, 0, none, d⟩ [] ∧
    addEvents .empty es =
      { Tally.empty with
        method := some head.method
        url := some head.url
        version := some head.version
        fields := head.fields }

/-- A well-formed head without an error is read. -/
theorem IsHead.reads {head : Head} {code major minor : Nat} (h : IsHead head code major minor)
    {d : Internal} (hread : init.readHead head code major minor = .ok d) :
    ∃ s, ReadsHead head.bytes head ({ d with headerState := s } : Internal).announce := by
  have hout := head_outcome init_fresh h []
  rw [hread, List.append_nil] at hout
  obtain ⟨s, hsteps⟩ := hout
  exact ⟨s, ⟨_, hsteps, addEvents_head head⟩⟩

theorem complete_addEvents {s : Tally} {es : List (Event Span Report)} :
    (addEvents s es).complete ↔ s.complete ∨ .report .headersComplete ∈ es := by
  induction es generalizing s with
  | nil => simp
  | cons e es ih =>
      show (addEvents (addEvent s e) es).complete ↔ _
      rw [ih]
      cases e with
      | byte k b => cases k <;> simp [addEvent, callback, Tally.add]
      | report r => cases r <;> simp [addEvent, callback, Tally.add]

namespace ReadsHead

variable {x tail : Bytes} {head : Head} {d : Internal} {reads : List Bytes}

/-- The moves over the head, whatever follows. -/
theorem moves (h : ReadsHead x head d) :
    ∃ es, .report .headersComplete ∉ es ∧
      (∀ y, Steps machine (startConfig init) (x ++ y) es ⟨.invokeOnHeadersComplete1, 0, none, d⟩ y) ∧
      addEvents .empty es =
        { Tally.empty with
          method := some head.method
          url := some head.url
          version := some head.version
          fields := head.fields } := by
  obtain ⟨es, hsteps, htally⟩ := h.steps
  refine ⟨es, fun hmem => ?_, fun y => ?_, htally⟩
  · have hcomplete := complete_addEvents.mpr (Or.inr hmem : Tally.empty.complete ∨ _)
    rw [htally] at hcomplete
    cases hcomplete
  · have hhead := hsteps.append y
    rwa [List.nil_append] at hhead

/-- **llhttp reports the head**, and the bytes behind it, in reads the last of which completes the
head. -/
theorem parses (h : ReadsHead x head d) (hreads : reads.flatten = x ++ tail)
    (hlast : reads.dropLast.flatten.length < x.length) :
    ∃ after, llhttp.Parses reads head (llhttp.parse llhttp.init reads).1 after
      (llhttp.parse llhttp.init reads).2 := by
  obtain ⟨es, hnot, hsteps, htally⟩ := h.moves
  have hfront := Resting.parse_behind start_waits
    (hreads ▸ (hsteps tail).trans (headersComplete_steps d tail))
  obtain ⟨q, haccepts, -⟩ := parse_accepts start_inPhase reads
  -- the first report of an end of a head is that of this one
  have hmem : .report .headersComplete ∈ (start.parse reads).1.flatten :=
    report_mem_callEvents.mp (hfront.subset (by simp))
  obtain ⟨front, back, hcalls, hnotfront⟩ := List.eq_append_cons_of_mem hmem
  have hevents : callEvents front = es := by
    obtain ⟨more, hmore⟩ := hfront
    rw [Resting.parsed, hcalls, callEvents_append, callEvents_report, List.append_assoc,
      List.singleton_append] at hmore
    have hnotfront' : .report .headersComplete ∉ callEvents front := by
      rwa [report_mem_callEvents]
    exact front_unique hmore.symm hnotfront' hnot
  rw [hcalls] at haccepts
  obtain ⟨mid, hhead, -⟩ := haccepts.split
  refine ⟨back.filterMap callback, rfl, ⟨_, spelled_of_accepts hhead hnotfront ?_, ?_⟩, ?_⟩
  · rw [hevents, htally]
  · rw [parse_callbacks, hcalls, ← List.filterMap_append]
    simp
  · -- no read before the last one has come to the end of the head
    have hne : reads ≠ [] := by
      rintro rfl
      have hlength := congrArg List.length hreads
      simp only [List.flatten_nil, List.length_nil, List.length_append] at hlength
      omega
    have hsplit := List.dropLast_concat_getLast hne
    have hbytes : reads.dropLast.flatten ++ reads.getLast hne = x ++ tail := by
      rw [← hreads]
      conv_rhs => rw [← hsplit]
      simp
    have hlonger : tail.length < (reads.getLast hne).length := by
      have hlength := congrArg List.length hbytes
      rw [List.length_append, List.length_append] at hlength
      omega
    obtain ⟨hcode, hbefore⟩ := Resting.parse_before start_waits (hbytes ▸ hsteps tail) hlonger
    rw [← parse_code] at hcode
    obtain ⟨s, hparse⟩ := Llhttp.parse_concat hcode (reads.getLast hne)
    rw [hsplit] at hparse
    rw [hparse, List.dropLast_concat, complete_mem_parse]
    exact fun hmem => hnot (hbefore.subset hmem)

end ReadsHead

end Rslinker.Internal
