import Rslinker.Client.HttpLink

set_option autoImplicit false

/-! # Which headers are forwarded

The parser collects headers in a hash map whose keys are equal up to the case of ASCII letters, and
the loop drains the map after every read. Two fields of one name that are completed in the same read
become one line, with the value of the second. And the map of the last read has all that llhttp
completes in it: behind the head there may be the trailers of a body in chunks, or the fields of a
further request.

`header_lines_kept_iff` says that nothing else is lost or made up. The lines of headers are those of
the block, each with the value that is due to it, exactly when llhttp accepts the reads, in none of
them a name occurs twice, and the fields behind the head leave no trace in the last map.
-/

namespace Rslinker

/-- The lines of headers among the pieces. -/
def headerLines (puts : List Put) : List (Bytes × Bytes) :=
  puts.filterMap fun piece => match piece with
    | .header name value => some (name, value)
    | _ => none

theorem headerLines_shape (method url version : Bytes) (lines : List (Bytes × Bytes))
    (content : Bytes) :
    headerLines (.requestLine method url version :: (asLines lines ++ [.blank, .content content]))
      = lines := by
  have hlines : headerLines (asLines lines) = lines := by
    simp [headerLines, asLines, List.filterMap_map]
  show headerLines (asLines lines ++ [.blank, .content content]) = lines
  rw [headerLines, List.filterMap_append, ← headerLines, hlines]
  exact List.append_nil lines

/-! ## The batches

The fields of a head go into the maps in batches, one for each read, and the last batch is followed by
the fields behind the head. -/

/-- No read completes two fields of one name, and those behind the head change no line and add none. -/
def FieldsApart (f : Bytes × Bytes → Bytes × Bytes) (head : Head) (reports : List (List Callback)) :
    Prop :=
  (∀ batch ∈ batches head.fields reports, Distinct batch) ∧
    Silent f (lateFields head reports) (fieldsBehind head reports)

/-- A coincidence: a read before the last one has lost fields of one name, and as many lines of new
names, which come behind the head, make up for them. -/
def MadeUp (f : Bytes × Bytes → Bytes × Bytes) (head : Head) (reports : List (List Callback)) : Prop :=
  (∃ batch ∈ batches head.fields reports.dropLast, ¬ Distinct batch) ∧
    (∃ e ∈ fieldsBehind head reports, ∀ b ∈ lateFields head reports, ¬ asciiEq b.1 e.1) ∧
    ((entries head reports).map f).Perm (head.fields.map f)

/-- **When the maps have the fields of the head.** -/
theorem entries_perm_iff {L : Llhttp} {reads : List Bytes} {head : Head}
    {reports : List (List Callback)} {after : List Callback} {errno : Nat}
    (h : L.Parses reads head reports after errno) {f : Bytes × Bytes → Bytes × Bytes}
    (hf : Rewrites f) :
    ((entries head reports).map f).Perm (head.fields.map f) ↔
      FieldsApart f head reports ∨ MadeUp f head reports := by
  obtain ⟨-, hbatches, hflatten⟩ := h.batches_eq
  have hiff := lines_perm_iff hf (lateFields head reports) (fieldsBehind head reports)
    (batches head.fields reports.dropLast)
  rw [hflatten, ← hbatches] at hiff
  exact hiff

theorem mem_batches_sublist {fields batch : List (Bytes × Bytes)} {reports : List (List Callback)}
    (h : batch ∈ batches fields reports) : batch.Sublist fields := by
  induction reports generalizing fields with
  | nil => cases h
  | cons cbs reports ih =>
      rcases List.mem_cons.mp h with rfl | h
      · exact List.take_sublist _ _
      · exact (ih h).trans (List.drop_sublist _ _)

/-- Fields with distinct names stay apart in any reads when none comes behind them. -/
theorem fieldsApart_of_distinct (f : Bytes × Bytes → Bytes × Bytes) {head : Head}
    {reports : List (List Callback)} (hdistinct : Distinct head.fields)
    (hbehind : fieldsBehind head reports = []) : FieldsApart f head reports := by
  refine ⟨fun batch hbatch => hdistinct.sublist (mem_batches_sublist hbatch), ?_⟩
  rw [hbehind]
  exact ⟨fun e he => absurd he List.not_mem_nil, fun b _ v hv => nomatch hv⟩

namespace HttpLink

open Internal HttpChannel

variable {link : HttpLink} {events : List HttpEvent} {x tail : Bytes} {head : Head} {d : Internal}

/-- What the channel puts into its buffer for the local service. -/
def pieces (link : HttpLink) (events : List HttpEvent) : List Put :=
  puts link.setup (new link.setup.llhttp) events

/-- The channel forwards the headers of the block, each one with the value that is due to it. -/
def KeepsHeaders (link : HttpLink) (head : Head) (events : List HttpEvent) : Prop :=
  ∃ c, loop link.setup (new link.setup.llhttp) events = .done c ∧
    c.toLocal ++ c.overrideRemoteBuf = (link.pieces events).flatMap Put.bytes ∧
    (headerLines (link.pieces events)).Perm (head.fields.map link.setup.due)

/-- Nothing is behind a head when the bytes behind it are plain. -/
theorem fieldsBehind_of_plain (h : ReadsHead x head d) (hbrings : Brings events x tail)
    (hcode : llhttpErrno events = 0) (hle : tail.length ≤ d.plain) :
    fieldsBehind head (llhttpReports events) = [] := by
  have htally := h.tally_of_plain hbrings.bytes hcode hle
  rw [fieldsBehind, llhttpReports, htally, List.drop_length]

end HttpLink

end Rslinker
