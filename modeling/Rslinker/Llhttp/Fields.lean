import Rslinker.Llhttp.HeaderLists

set_option autoImplicit false

/-! # Header fields

What one field of a head, or of trailers, does to the data, as a function of its name and its value:
`field`. llhttp reads a field on one line exactly when this function has a result, and otherwise finds
the error that the function has (`field_outcome`). The same goes for any number of fields.

The function is what makes statements about whole messages possible: an error of llhttp is an error
of the function, and the flags that decide on the body are its result. It is given name and value
as they are called back, so blanks around a value are not a part of it.
-/

namespace Rslinker.Internal

open Scan

/-! ## The function

What llhttp does with a field is spread over many nodes, but it comes down to a function of the
name and the value: a few names are known, their values are parsed, and flags are set. The numbers
of the errors are 4 for a second `Content-Length`, 11 for one that is invalid or comes behind a
`Transfer-Encoding`, and 15 for a `Transfer-Encoding` that is invalid or comes behind a
`Content-Length`. -/

/-- What a value with bytes in it does in a header state. -/
def fieldValue (d : Internal) (value : Bytes) : Except Nat Internal :=
  match d.headerState with
  | 1 => .ok (d.addOptions value)
  | 2 =>
      if d.flags.contentLength then .error 4
      else match lengthOf value with
        | none => .error 11
        | some n =>
            .ok { d.general with
              contentLength := n
              flags := { d.flags with contentLength := true } }
  | 3 =>
      if d.flags.chunked then .error 15
      else match endsChunked (value.splitOn 44) with
        | none => .error 15
        | some chunked =>
            .ok { d.general with
              flags := { d.flags with transferEncoding := true, chunked := chunked } }
  | 4 => .ok { d.general with flags := { d.flags with upgrade := true } }
  | _ => .ok d.general

/-- What a header does, or the number of its error. -/
def field (d : Internal) (name value : Bytes) : Except Nat Internal :=
  let d : Internal := { d with headerState := nameState name }
  if d.headerState = 2 ∧ d.flags.transferEncoding then .error 11
  else if d.headerState = 3 ∧ d.flags.contentLength then .error 15
  else if value = [] then if d.headerState = 2 then .error 11 else .ok d.general
  else d.fieldValue value

def fieldEvents (name value : Bytes) : List (Event Span Report) :=
  eatenAll (some .headerField) name ++ .report .headerFieldComplete ::
    (eatenAll (some .headerValue) value ++ [.report .headerValueComplete])

/-! ## Outcomes

An input is compared with a function that may fail. On its result the input has been read up to the
next field, with these data; on its error the input is an error, whatever follows. -/

/-- How an input is read up to the next field, or that it is an error. -/
def Outcome (c : Config Label Internal Span) (x : Bytes) (es : List (Event Span Report))
    (y : Bytes) : Except Nat Internal → Prop
  | .ok d => ∃ s, Steps machine c x es ⟨.headerFieldStart, 0, none, { d with headerState := s }⟩ y
  | .error errno => Rejects machine c x errno

theorem Outcome.behind {c c' : Config Label Internal Span} {x x' y : Bytes}
    {es es' : List (Event Span Report)} {r : Except Nat Internal} (h : Steps machine c x es c' x')
    (h' : Outcome c' x' es' y r) : Outcome c x (es ++ es') y r := by
  cases r with
  | error errno => exact h.rejects h'
  | ok d =>
      obtain ⟨s, hsteps⟩ := h'
      exact ⟨s, h.trans hsteps⟩

theorem Outcome.silent {c c' : Config Label Internal Span} {x x' y : Bytes}
    {es : List (Event Span Report)} {r : Except Nat Internal} (h : Steps machine c x [] c' x')
    (h' : Outcome c' x' es y r) : Outcome c x es y r := Outcome.behind h h'

/-- The end of the line is reached with these data. -/
theorem Outcome.of_end {c : Config Label Internal Span} {value : Bytes} {d d' : Internal} {b : UInt8}
    {y : Bytes} (hb : blankBytes.has b = false)
    (h : Steps machine c (value ++ 13 :: 10 :: b :: y) (eatenAll (some .headerValue) value)
      ⟨.headerValueOtherwise, 0, some .headerValue, d'⟩ (13 :: 10 :: b :: y))
    (hd : d'.settle.general = d.general) :
    Outcome c (value ++ 13 :: 10 :: b :: y)
      (eatenAll (some .headerValue) value ++ [.report .headerValueComplete]) (b :: y) (.ok d) := by
  refine ⟨d'.settle.headerState, ?_⟩
  have heq : d'.settle = { d with headerState := d'.settle.headerState } := by
    have hall := congrArg (fun e : Internal => { e with headerState := d'.settle.headerState }) hd
    exact hall
  have hgo := h.trans (value_end d' hb y)
  rw [heq] at hgo
  exact hgo

/-! ## Values

By the header state, which the name has set. Where a value does not matter it is only called back,
up to the end of the line. -/

/-- Without a `Content-Length` the length is 0. -/
def Sound (d : Internal) : Prop := d.flags.contentLength = false → d.contentLength = 0

/-- A value that is only called back. -/
theorem plain_outcome {c : Config Label Internal Span} {value : Bytes} {d d' : Internal} {b : UInt8}
    {y : Bytes} (hvalue : IsValue value) (hb : blankBytes.has b = false)
    (h : Steps machine c (value ++ 13 :: 10 :: b :: y) []
      ⟨.headerValue, 0, some .headerValue, d'⟩ (value ++ 13 :: 10 :: b :: y))
    (hstate : d'.headerState ≤ 1) (hd : d'.general = d.general) :
    Outcome c (value ++ 13 :: 10 :: b :: y)
      (eatenAll (some .headerValue) value ++ [.report .headerValueComplete]) (b :: y) (.ok d) := by
  have hread := h.trans (headerValue_steps d' hvalue (10 :: b :: y))
  refine .of_end hb hread ?_
  rw [settle_of_lt (by omega), hd]

/-- **A value is read** as the header state says. -/
theorem value_outcome {d : Internal} (hsound : d.Sound) {v : UInt8} {value : Bytes}
    (hvalue : IsValue (v :: value)) (hv : blankBytes.has v = false) {b : UInt8}
    (hb : blankBytes.has b = false) (hstate : d.headerState ≤ 4) (y : Bytes) :
    Outcome ⟨.invokeLoadHeaderState3, 0, some .headerValue, d⟩ (v :: value ++ 13 :: 10 :: b :: y)
      (eatenAll (some .headerValue) (v :: value) ++ [.report .headerValueComplete]) (b :: y)
      (d.fieldValue (v :: value)) := by
  have hload := Machine.invoke_steps (m := machine) (l := .invokeLoadHeaderState3) rfl
    (some .headerValue) d (v :: value ++ 13 :: 10 :: b :: y)
  have hto : ∀ {t : Label}, lookup [(1, Label.headerValueConnection), (2, .invokeTestFlags2),
      (3, .invokeTestFlags3), (4, .invokeOrFlags20)] .headerValue d.headerState = t →
      Steps machine ⟨.invokeLoadHeaderState3, 0, some .headerValue, d⟩
        (v :: value ++ 13 :: 10 :: b :: y) [] ⟨t, 0, some .headerValue, d⟩
        (v :: value ++ 13 :: 10 :: b :: y) := by
    rintro _ rfl
    exact hload
  rcases hk : d.headerState with _ | _ | _ | _ | _ | k
  · -- no name that is known
    have hresult : d.fieldValue (v :: value) = .ok d.general := by simp [fieldValue, hk]
    rw [hresult]
    exact plain_outcome hvalue hb (hto (by rw [hk]; rfl)) (by omega) rfl
  · -- `Connection`
    have hresult : d.fieldValue (v :: value) = .ok (d.addOptions (v :: value)) := by
      simp [fieldValue, hk]
    obtain ⟨d', hd', hsteps⟩ := connection_steps hvalue d (by omega) (10 :: b :: y)
    rw [hresult]
    refine .of_end hb ((hto (by rw [hk]; rfl)).trans hsteps) ?_
    rw [hd', addOptions_eq]
    rfl
  · -- `Content-Length`
    have htest := Machine.invoke_steps (m := machine) (l := .invokeTestFlags2) rfl
      (some .headerValue) d (v :: value ++ 13 :: 10 :: b :: y)
    cases hflag : d.flags.contentLength with
    | true =>
        have hresult : d.fieldValue (v :: value) = .error 4 := by simp [fieldValue, hk, hflag]
        have hlookup : lookup [(0, Label.headerValueContentLength)] .error53 (testFlags2 d).2
            = .error53 := by simp [testFlags2, hflag, lookup]
        rw [hlookup] at htest
        rw [hresult]
        exact ((hto (by rw [hk]; rfl)).trans htest).rejects (.of_stop rfl)
    | false =>
        have hlookup : lookup [(0, Label.headerValueContentLength)] .error53 (testFlags2 d).2
            = .headerValueContentLength := by simp [testFlags2, hflag, lookup]
        rw [hlookup] at htest
        have hgo := (hto (by rw [hk]; rfl)).trans htest
        cases hlength : lengthOf (v :: value) with
        | none =>
            have hresult : d.fieldValue (v :: value) = .error 11 := by
              simp [fieldValue, hk, hflag, hlength]
            rw [hresult]
            exact hgo.rejects (contentLength_rejects (hsound hflag) hvalue hlength (10 :: b :: y))
        | some n =>
            have hresult : d.fieldValue (v :: value) = .ok { d.general with
                contentLength := n
                flags := { d.flags with contentLength := true } } := by
              simp [fieldValue, hk, hflag, hlength]
            have hread := hgo.trans (contentLength_steps (hsound hflag) hlength (10 :: b :: y))
            rw [hresult]
            refine .of_end hb hread ?_
            simp [settle, hk, general]
  · -- `Transfer-Encoding`
    have htest := Machine.invoke_steps (m := machine) (l := .invokeTestFlags3) rfl
      (some .headerValue) d (v :: value ++ 13 :: 10 :: b :: y)
    cases hflag : d.flags.chunked with
    | true =>
        have hresult : d.fieldValue (v :: value) = .error 15 := by simp [fieldValue, hk, hflag]
        have hlookup : lookup [(1, Label.invokeLoadType2)] .invokeOrFlags18 (testFlags3 d).2
            = .invokeLoadType2 := by simp [testFlags3, hflag, lookup]
        rw [hlookup] at htest
        rw [hresult]
        exact ((hto (by rw [hk]; rfl)).trans htest).rejects (.of_follow 3 rfl rfl)
    | false =>
        have hlookup : lookup [(1, Label.invokeLoadType2)] .invokeOrFlags18 (testFlags3 d).2
            = .invokeOrFlags18 := by simp [testFlags3, hflag, lookup]
        rw [hlookup] at htest
        have hset : Steps machine ⟨.invokeOrFlags18, 0, some .headerValue, d⟩
            (v :: value ++ 13 :: 10 :: b :: y) [] ⟨.headerValueTeChunked, 0, some .headerValue,
              { d with flags := { d.flags with transferEncoding := true, chunked := false } }⟩
            (v :: value ++ 13 :: 10 :: b :: y) := Machine.steps_of_follow 2 rfl
        have hgo := (hto (by rw [hk]; rfl)).trans (htest.trans hset)
        have hdrop : (v :: value).dropWhile blankBytes.has = v :: value :=
          List.dropWhile_cons_of_neg (by simp [hv])
        have hread := codings_read hvalue
          { d with flags := { d.flags with transferEncoding := true, chunked := false } }
          (10 :: b :: y)
        rw [hdrop] at hread
        cases hends : endsChunked ((v :: value).splitOn 44) with
        | none =>
            have hresult : d.fieldValue (v :: value) = .error 15 := by
              simp [fieldValue, hk, hflag, hends]
            rw [hends] at hread
            rw [hresult]
            exact hgo.rejects hread
        | some chunked =>
            have hresult : d.fieldValue (v :: value) = .ok { d.general with
                flags := { d.flags with transferEncoding := true, chunked := chunked } } := by
              simp [fieldValue, hk, hflag, hends]
            rw [hends] at hread
            rw [hresult]
            refine .of_end hb (hgo.trans hread) ?_
            cases chunked <;> rfl
  · -- `Upgrade`
    have hresult : d.fieldValue (v :: value)
        = .ok { d.general with flags := { d.flags with upgrade := true } } := by
      simp [fieldValue, hk]
    rw [hresult]
    have hflag : Steps machine ⟨.invokeOrFlags20, 0, some .headerValue, d⟩
        (v :: value ++ 13 :: 10 :: b :: y) [] ⟨.headerValue, 0, some .headerValue,
          { d.general with flags := { d.flags with upgrade := true } }⟩
        (v :: value ++ 13 :: 10 :: b :: y) := Machine.steps_of_follow 2 rfl
    exact plain_outcome hvalue hb ((hto (by rw [hk]; rfl)).trans hflag) (Nat.zero_le 1) rfl
  · omega

/-! ## Fields

A field on one line, with any blanks in front of its value. The next byte behind it must not be a
blank, since a line that begins with one goes on with the value; in a list of fields it is a token
or the end. -/

theorem nameState_le (name : Bytes) : nameState name ≤ 4 := by
  by_cases h : nameState name = 0
  · omega
  · have hcodes : ∀ e ∈ knownNames, e.2 ≤ 4 := by decide
    exact hcodes _ (mem_of_codeOf h)

/-- A value that may stand in a line: without a blank in front, which would not belong to it. -/
def IsLine (value : Bytes) : Prop :=
  IsValue value ∧ ∀ b, value.head? = some b → blankBytes.has b = false

instance (value : Bytes) : Decidable (IsLine value) :=
  decidable_of_iff (IsValue value ∧ value.head?.all fun b => blankBytes.has b = false)
    (by simp [IsLine, Option.all_eq_true])

/-- A field, with blanks in front of its value. -/
def fieldBytes (name ws value : Bytes) : Bytes := name ++ 58 :: (ws ++ (value ++ [13, 10]))

/-- Behind the name a `Content-Length` and a `Transfer-Encoding` exclude each other. -/
theorem load_outcome {d : Internal} {x y : Bytes} {es : List (Event Span Report)}
    {r : Except Nat Internal} (h : Outcome ⟨.headerValueDiscardWs, 0, none, d⟩ x es y r) :
    Outcome ⟨.invokeLoadHeaderState, 0, none, d⟩ x es y
      (if d.headerState = 2 ∧ d.flags.transferEncoding then .error 11
        else if d.headerState = 3 ∧ d.flags.contentLength then .error 15 else r) := by
  have hload : ∀ {t : Label}, lookup [(2, Label.invokeTestFlags4), (3, .invokeTestFlags5)]
      .headerValueDiscardWs d.headerState = t →
      Steps machine ⟨.invokeLoadHeaderState, 0, none, d⟩ x [] ⟨t, 0, none, d⟩ x := by
    rintro _ rfl
    exact Machine.invoke_steps (m := machine) (l := .invokeLoadHeaderState) rfl none d x
  by_cases h2 : d.headerState = 2
  · have hgo := hload (t := .invokeTestFlags4) (by rw [h2]; rfl)
    have htest := Machine.invoke_steps (m := machine) (l := .invokeTestFlags4) rfl none d x
    cases hflag : d.flags.transferEncoding with
    | true =>
        have hlookup : lookup [(1, Label.invokeTestLenientFlags21)] .headerValueDiscardWs
            (testFlags4 d).2 = .invokeTestLenientFlags21 := by simp [testFlags4, hflag, lookup]
        rw [hlookup] at htest
        rw [if_pos ⟨h2, rfl⟩]
        have hlenient := Machine.invoke_steps (m := machine) (l := .invokeTestLenientFlags21) rfl none
          d x
        exact (hgo.trans (htest.trans hlenient)).rejects (.of_stop rfl)
    | false =>
        have hlookup : lookup [(1, Label.invokeTestLenientFlags21)] .headerValueDiscardWs
            (testFlags4 d).2 = .headerValueDiscardWs := by simp [testFlags4, hflag, lookup]
        rw [hlookup] at htest
        have hout := Outcome.silent (hgo.trans htest) h
        simpa [h2] using hout
  by_cases h3 : d.headerState = 3
  · have hgo := hload (t := .invokeTestFlags5) (by rw [h3]; rfl)
    have htest := Machine.invoke_steps (m := machine) (l := .invokeTestFlags5) rfl none d x
    rw [if_neg (by simp [h3])]
    cases hflag : d.flags.contentLength with
    | true =>
        have hlookup : lookup [(1, Label.invokeTestLenientFlags22)] .headerValueDiscardWs
            (testFlags2 d).2 = .invokeTestLenientFlags22 := by simp [testFlags2, hflag, lookup]
        rw [hlookup] at htest
        rw [if_pos ⟨h3, rfl⟩]
        have hlenient := Machine.invoke_steps (m := machine) (l := .invokeTestLenientFlags22) rfl none
          d x
        exact (hgo.trans (htest.trans hlenient)).rejects (.of_stop rfl)
    | false =>
        have hlookup : lookup [(1, Label.invokeTestLenientFlags22)] .headerValueDiscardWs
            (testFlags2 d).2 = .headerValueDiscardWs := by simp [testFlags2, hflag, lookup]
        rw [hlookup] at htest
        have hout := Outcome.silent (hgo.trans htest) h
        simpa using hout
  · have hgo := hload (t := .headerValueDiscardWs) (by simp [lookup, Ne.symm h2, Ne.symm h3])
    have hout := Outcome.silent hgo h
    simpa [h2, h3] using hout

/-- A field begins. -/
theorem field_begin (d : Internal) {name : Bytes} (hname : IsToken name) (x : Bytes) :
    Steps machine ⟨.headerFieldStart, 0, none, d⟩ (name ++ 58 :: x) []
      ⟨.headerField, 0, some .headerField, d⟩ (name ++ 58 :: x) := by
  have hskip : ∀ b, tokenBytes.has b || b = 58 →
      machine.skip 1 .headerFieldStart b = .spanStartOnHeaderField :=
    Machine.skip_all rfl 2 rfl rfl
  rcases name with _ | ⟨b, name⟩
  · exact (Machine.skip_steps (hskip 58 rfl) none d x).trans (.of_quiet rfl)
  · have hb := hskip b (by rw [hname.of_cons.1]; rfl)
    exact (Machine.skip_steps hb none d (name ++ 58 :: x)).trans (.of_quiet rfl)

/-- **A field is read**, or it is the error that `field` has for it. -/
theorem field_outcome {d : Internal} (hsound : d.Sound) {name ws value : Bytes}
    (hname : IsToken name) (hws : ∀ b ∈ ws, blankBytes.has b) (hvalue : IsLine value) {b : UInt8}
    (hb : blankBytes.has b = false) (y : Bytes) :
    Outcome ⟨.headerFieldStart, 0, none, d⟩ (fieldBytes name ws value ++ b :: y)
      (fieldEvents name value) (b :: y) (d.field name value) := by
  have hbytes : fieldBytes name ws value ++ b :: y
      = name ++ 58 :: (ws ++ (value ++ 13 :: 10 :: b :: y)) := by
    simp [fieldBytes]
  have hread := (field_begin d hname (ws ++ (value ++ 13 :: 10 :: b :: y))).trans
    (headerField_steps d hname (ws ++ (value ++ 13 :: 10 :: b :: y)))
  have hevents : fieldEvents name value
      = eatenAll (some .headerField) name ++ [.report .headerFieldComplete]
        ++ (eatenAll (some .headerValue) value ++ [.report .headerValueComplete]) := by
    simp [fieldEvents]
  have hblanks := blanks_steps { d with headerState := nameState name } hws
    (value ++ 13 :: 10 :: b :: y)
  have hout : Outcome ⟨.headerValueDiscardWs, 0, none, { d with headerState := nameState name }⟩
      (value ++ 13 :: 10 :: b :: y)
      (eatenAll (some .headerValue) value ++ [.report .headerValueComplete]) (b :: y)
      (if value = [] then if nameState name = 2 then .error 11 else .ok d.general
        else fieldValue { d with headerState := nameState name } value) := by
    rcases value with _ | ⟨v, value⟩
    · rw [if_pos rfl]
      split
      · case isTrue hstate => exact empty_rejects hstate hb y
      · case isFalse hstate =>
          have hempty := empty_steps (d := { d with headerState := nameState name }) hstate hb y
          have hle := nameState_le name
          rw [settle_of_lt (by show nameState name < 5; omega)] at hempty
          exact ⟨nameState name, hempty⟩
    · rw [if_neg (List.cons_ne_nil v value)]
      have hv := hvalue.2 v rfl
      have hbegin := value_begin { d with headerState := nameState name }
        (hvalue.1 v List.mem_cons_self) hv (value ++ 13 :: 10 :: b :: y)
      have hread := value_outcome (d := { d with headerState := nameState name }) hsound hvalue.1 hv
        hb (nameState_le name) y
      exact Outcome.silent hbegin hread
  rw [hbytes, hevents]
  exact Outcome.behind hread (load_outcome (Outcome.silent hblanks hout))

/-- What the fields do, one after the other, up to the first error. -/
def fields (d : Internal) : List (Bytes × Bytes) → Except Nat Internal
  | [] => .ok d
  | e :: rest => (d.field e.1 e.2).bind fun d => d.fields rest

def fieldsBytes (es : List (Bytes × Bytes)) : Bytes := es.flatMap fun e => fieldBytes e.1 [32] e.2

def fieldsEvents (es : List (Bytes × Bytes)) : List (Event Span Report) :=
  es.flatMap fun e => fieldEvents e.1 e.2

/-- Names that are tokens, and values on one line. -/
def AreFields (es : List (Bytes × Bytes)) : Prop := ∀ e ∈ es, IsToken e.1 ∧ IsLine e.2

instance (es : List (Bytes × Bytes)) : Decidable (AreFields es) :=
  inferInstanceAs (Decidable (∀ e ∈ es, IsToken e.1 ∧ IsLine e.2))

/-- The header state does not matter between fields. -/
theorem Outcome.of_headerState {c : Config Label Internal Span} {x y : Bytes}
    {evs : List (Event Span Report)} {d : Internal} {s : Nat} {es : List (Bytes × Bytes)}
    (h : Outcome c x evs y (({ d with headerState := s } : Internal).fields es)) :
    Outcome c x evs y (d.fields es) := by
  cases es with
  | nil => exact h
  | cons e es => exact h

/-- The ways in which a field may change the data. -/
inductive FieldStep (d : Internal) (name value : Bytes) : Internal → Prop
  | plain : FieldStep d name value d.general
  | connection : FieldStep d name value (d.addOptions value)
  | contentLength {n : Nat} (hname : nameState name = 2) (hcoding : d.flags.transferEncoding = false)
      (hlength : d.flags.contentLength = false) (hvalue : lengthOf value = some n) :
      FieldStep d name value { d.general with
        contentLength := n
        flags := { d.flags with contentLength := true } }
  | transferEncoding {chunked : Bool} (hname : nameState name = 3)
      (hlength : d.flags.contentLength = false) (hchunked : d.flags.chunked = false)
      (hvalue : endsChunked (value.splitOn 44) = some chunked) :
      FieldStep d name value { d.general with
        flags := { d.flags with transferEncoding := true, chunked := chunked } }
  | upgrade :
      FieldStep d name value { d.general with flags := { d.flags with upgrade := true } }

theorem field_step {d d' : Internal} {name value : Bytes} (h : d.field name value = .ok d') :
    FieldStep d name value d' := by
  unfold field at h
  dsimp only at h
  split at h
  · cases h
  · case isFalse hcoding =>
    split at h
    · cases h
    · case isFalse hlength =>
      split at h
      · split at h <;> cases h
        exact .plain
      · unfold fieldValue at h
        dsimp only at h
        split at h
        · cases h
          exact .connection
        · case h_2 hname =>
          have htransfer : d.flags.transferEncoding = false := by
            simpa [show nameState name = 2 from hname] using hcoding
          split at h
          · cases h
          · case isFalse hflag =>
            split at h
            · cases h
            · case h_2 n hvalue =>
              cases h
              exact .contentLength hname htransfer (by simpa using hflag) hvalue
        · case h_3 hname =>
          have hcontent : d.flags.contentLength = false := by
            simpa [show nameState name = 3 from hname] using hlength
          split at h
          · cases h
          · case isFalse hflag =>
            split at h
            · cases h
            · case h_2 chunked hvalue =>
              cases h
              exact .transferEncoding hname hcontent (by simpa using hflag) hvalue
        · cases h
          exact .upgrade
        · cases h
          exact .plain

/-- What is known of the length and the flags between the fields of a head. -/
structure Framed (d : Internal) : Prop where
  sound : d.Sound
  fits : d.contentLength < 2 ^ 64
  exclusive : d.flags.contentLength = true → d.flags.transferEncoding = false
  chunked : d.flags.chunked = true → d.flags.transferEncoding = true

/-- **A field keeps the framing.** -/
theorem Framed.field {d d' : Internal} (h : d.Framed) {name value : Bytes}
    (hfield : d.field name value = .ok d') : d'.Framed ∧ d'.flags.trailing = d.flags.trailing := by
  obtain ⟨hsound, hfits, hexclusive, hchunked⟩ := h
  cases field_step hfield with
  | plain => exact ⟨⟨hsound, hfits, hexclusive, hchunked⟩, rfl⟩
  | connection =>
      rw [addOptions_eq]
      exact ⟨⟨hsound, hfits, hexclusive, hchunked⟩, rfl⟩
  | contentLength _ hcoding _ hvalue =>
      refine ⟨⟨fun hfalse => (nomatch hfalse), ?_, fun _ => hcoding, hchunked⟩, rfl⟩
      obtain ⟨⟨-, hn⟩, heq⟩ := Option.ite_none_right_eq_some.mp hvalue
      exact Option.some.inj heq ▸ hn
  | transferEncoding _ hlength =>
      exact ⟨⟨hsound, hfits, fun htrue => (nomatch hlength.symm.trans htrue), fun _ => rfl⟩, rfl⟩
  | upgrade => exact ⟨⟨hsound, hfits, hexclusive, hchunked⟩, rfl⟩

theorem Framed.fields {d d' : Internal} (h : d.Framed) {es : List (Bytes × Bytes)}
    (hfields : d.fields es = .ok d') : d'.Framed ∧ d'.flags.trailing = d.flags.trailing := by
  induction es generalizing d with
  | nil =>
      cases hfields
      exact ⟨h, rfl⟩
  | cons e es ih =>
      rw [Internal.fields] at hfields
      cases hfield : d.field e.1 e.2 with
      | error errno =>
          rw [hfield] at hfields
          cases hfields
      | ok d₁ =>
          rw [hfield] at hfields
          obtain ⟨h₁, htrailing⟩ := h.field hfield
          obtain ⟨h', htrailing'⟩ := ih h₁ hfields
          exact ⟨h', htrailing'.trans htrailing⟩

theorem not_blank_of_token {b : UInt8} (h : tokenBytes.has b) : blankBytes.has b = false := by
  have hall : allBytes fun b => !tokenBytes.has b || !blankBytes.has b := rfl
  simpa [h] using of_allBytes hall b

/-- The next byte behind a field is not a blank. -/
theorem next_field {es : List (Bytes × Bytes)} (hes : AreFields es) {b : UInt8}
    (hb : blankBytes.has b = false) (y : Bytes) :
    ∃ c z, fieldsBytes es ++ b :: y = c :: z ∧ blankBytes.has c = false := by
  rcases es with _ | ⟨e, es⟩
  · exact ⟨b, y, rfl, hb⟩
  · have htoken := (hes e List.mem_cons_self).1
    rcases hname : e.1 with _ | ⟨c, name⟩
    · exact ⟨58, _, by simp [fieldsBytes, fieldBytes, hname]; rfl, rfl⟩
    · rw [hname] at htoken
      exact ⟨c, _, by simp [fieldsBytes, fieldBytes, hname]; rfl, not_blank_of_token htoken.of_cons.1⟩

/-- **Fields are read** up to the first error. -/
theorem fields_outcome {d : Internal} (h : d.Framed) {es : List (Bytes × Bytes)}
    (hes : AreFields es) {b : UInt8} (hb : blankBytes.has b = false) (y : Bytes) :
    Outcome ⟨.headerFieldStart, 0, none, d⟩ (fieldsBytes es ++ b :: y) (fieldsEvents es) (b :: y)
      (d.fields es) := by
  induction es generalizing d with
  | nil => exact ⟨d.headerState, .refl _ _⟩
  | cons e es ih =>
      obtain ⟨hname, hvalue⟩ := hes e List.mem_cons_self
      have hrest : AreFields es := fun e' he' => hes e' (List.mem_cons_of_mem e he')
      obtain ⟨c, z, hnext, hc⟩ := next_field hrest hb y
      have hblank : ∀ b ∈ ([32] : Bytes), blankBytes.has b := by
        intro b hb
        rw [List.mem_singleton.mp hb]
        rfl
      have hfirst := field_outcome h.sound hname hblank hvalue hc z
      rw [← hnext, ← List.append_assoc] at hfirst
      rw [fields]
      cases hfield : d.field e.1 e.2 with
      | error errno =>
          rw [hfield] at hfirst
          exact hfirst
      | ok d₁ =>
          rw [hfield] at hfirst
          obtain ⟨s, hsteps⟩ := hfirst
          have hframed := (h.field hfield).1
          have hout := ih (d := { d₁ with headerState := s })
            ⟨hframed.sound, hframed.fits, hframed.exclusive, hframed.chunked⟩ hrest
          exact Outcome.behind hsteps hout.of_headerState

end Rslinker.Internal
