import Rslinker.Llhttp.Spans
import Rslinker.Llhttp.Numbers

set_option autoImplicit false

/-! # The values of headers

What llhttp does with a value depends on the header state. The values of `Content-Length` and
`Transfer-Encoding` may be errors; they and the options of a `Connection` set flags, the last ones at
the end of the value. All other values are only called back.

The simple values are here, and `Content-Length`; the lists are in `HeaderLists.lean`. For each
kind of value there is a function that says what it means, and a lemma that the nodes compute it.
-/

namespace Rslinker.Internal

open Scan

/-- The bytes of a value that is on one line. -/
def IsValue (x : Bytes) : Prop := ∀ b ∈ x, valueBytes.has b

instance (x : Bytes) : Decidable (IsValue x) :=
  decidable_of_iff (x.all fun b => valueBytes.has b) List.all_eq_true

theorem IsValue.right {x y : Bytes} (h : IsValue (x ++ y)) : IsValue y :=
  fun b hb => h b (List.mem_append_right x hb)

theorem IsValue.left {x y : Bytes} (h : IsValue (x ++ y)) : IsValue x :=
  fun b hb => h b (List.mem_append_left y hb)

/-! ## The end of a value

A value ends with its line, unless the next line begins with a blank. At its end the flags are set
for what has been read last, so that a flag is not set for the first part of a longer word. -/

/-- What the header state says at the end of a value or of an option. -/
def settle (d : Internal) : Internal :=
  match d.headerState with
  | 5 => { d with flags := { d.flags with connectionKeepAlive := true }, headerState := 1 }
  | 6 => { d with flags := { d.flags with connectionClose := true }, headerState := 1 }
  | 7 => { d with flags := { d.flags with connectionUpgrade := true }, headerState := 1 }
  | 8 => { d with flags := { d.flags with chunked := true } }
  | _ => d

theorem settle_of_lt {d : Internal} (h : d.headerState < 5) : d.settle = d := by
  unfold settle
  split <;> first | rfl | omega

/-- The three nodes `load_header_state` that set flags. -/
theorem settle_steps {l t keepAlive close upgrade chunked general : Label}
    (hnode : node l = .invoke loadHeaderState
      [(5, keepAlive), (6, close), (7, upgrade), (8, chunked)] t)
    (hkeepAlive : node keepAlive = .invoke orFlags5 [] general)
    (hclose : node close = .invoke orFlags6 [] general)
    (hupgrade : node upgrade = .invoke orFlags7 [] general)
    (hchunked : node chunked = .invoke orFlags8 [] t)
    (hgeneral : node general = .invoke updateHeaderState [] t) (span : Option Span) (d : Internal)
    (x : Bytes) : Steps machine ⟨l, 0, span, d⟩ x [] ⟨t, 0, span, d.settle⟩ x := by
  have hload : ∀ {o : Label}, lookup [(5, keepAlive), (6, close), (7, upgrade), (8, chunked)] t
      d.headerState = o → Steps machine ⟨l, 0, span, d⟩ x [] ⟨o, 0, span, d⟩ x := by
    rintro _ rfl
    exact Machine.invoke_steps (m := machine) hnode span d x
  have hflag : ∀ {o : Label} {f : Internal → Internal × Nat}, node o = .invoke f [] general →
      lookup [(5, keepAlive), (6, close), (7, upgrade), (8, chunked)] t d.headerState = o →
      d.settle = { (f d).1 with headerState := 1 } →
      Steps machine ⟨l, 0, span, d⟩ x [] ⟨t, 0, span, d.settle⟩ x := by
    intro o f ho hlookup hsettle
    have hset := Machine.invoke_steps (m := machine) ho span d x
    have hback := Machine.invoke_steps (m := machine) hgeneral span (f d).1 x
    rw [hsettle]
    exact (hload hlookup).trans (hset.trans hback)
  by_cases h5 : d.headerState = 5
  · exact hflag hkeepAlive (by rw [h5]; rfl) (by rw [settle, h5]; rfl)
  by_cases h6 : d.headerState = 6
  · exact hflag hclose (by rw [h6]; rfl) (by rw [settle, h6]; rfl)
  by_cases h7 : d.headerState = 7
  · exact hflag hupgrade (by rw [h7]; rfl) (by rw [settle, h7]; rfl)
  by_cases h8 : d.headerState = 8
  · have hset := Machine.invoke_steps (m := machine) hchunked span d x
    have hsettle : d.settle = (orFlags8 d).1 := by simp [settle, h8, orFlags8]
    rw [hsettle]
    exact (hload (by rw [h8]; rfl)).trans hset
  · have hsettle : d.settle = d := by
      unfold settle
      split <;> first | rfl | contradiction
    rw [hsettle]
    exact hload (by simp [lookup, Ne.symm h5, Ne.symm h6, Ne.symm h7, Ne.symm h8])

def blankBytes : ByteSet := [(9, 9), (32, 32)]

/-- **The end of a value**, when the next line does not go on with it. -/
theorem value_end (d : Internal) {b : UInt8} (hb : blankBytes.has b = false) (y : Bytes) :
    Steps machine ⟨.headerValueOtherwise, 0, some .headerValue, d⟩ (13 :: 10 :: b :: y)
      [.report .headerValueComplete] ⟨.headerFieldStart, 0, none, d.settle⟩ (b :: y) := by
  have hline : Steps machine ⟨.headerValueOtherwise, 0, some .headerValue, d⟩ (13 :: 10 :: b :: y) []
      ⟨.headerValueLws, 0, none, d⟩ (b :: y) := Machine.steps_of_follow 3 rfl
  have hskip : ∀ b, !blankBytes.has b → machine.skip 1 .headerValueLws b = .invokeLoadHeaderState5 :=
    Machine.skip_all rfl 1 rfl rfl
  have hgo := Machine.skip_steps (hskip b (by rw [hb]; rfl)) (none : Option Span) d y
  have hsettle := settle_steps (l := .invokeLoadHeaderState5) rfl rfl rfl rfl rfl rfl none d (b :: y)
  exact hline.trans (hgo.trans (hsettle.trans (.of_quiet rfl)))

/-- Blanks in front of a value. -/
theorem blanks_steps (d : Internal) {ws : Bytes} (hws : ∀ b ∈ ws, blankBytes.has b) (y : Bytes) :
    Steps machine ⟨.headerValueDiscardWs, 0, none, d⟩ (ws ++ y) []
      ⟨.headerValueDiscardWs, 0, none, d⟩ y := by
  have hglide : ∀ b, blankBytes.has b →
      machine.glide 1 .headerValueDiscardWs b = some .headerValueDiscardWs :=
    Machine.glide_all rfl 0 rfl rfl
  have hloop := Machine.loop_steps (fun b hb => hglide b (hws b hb)) (none : Option Span) d y
  simpa using hloop

/-- A value begins. -/
theorem value_begin (d : Internal) {b : UInt8} (hvalue : valueBytes.has b)
    (hblank : blankBytes.has b = false) (y : Bytes) :
    Steps machine ⟨.headerValueDiscardWs, 0, none, d⟩ (b :: y) []
      ⟨.invokeLoadHeaderState3, 0, some .headerValue, d⟩ (b :: y) := by
  have hskip : ∀ b, valueBytes.has b && !blankBytes.has b →
      machine.skip 1 .headerValueDiscardWs b = .spanStartOnHeaderValue1 :=
    Machine.skip_all rfl 3 rfl rfl
  have hb := hskip b (by rw [hvalue, hblank]; rfl)
  exact (Machine.skip_steps hb (none : Option Span) d y).trans (.of_quiet rfl)

/-- The line of a value without bytes. -/
theorem empty_line (d : Internal) {b : UInt8} (hb : blankBytes.has b = false) (y : Bytes) :
    Steps machine ⟨.headerValueDiscardWs, 0, none, d⟩ (13 :: 10 :: b :: y) []
      ⟨.invokeLoadHeaderState1, 0, none, d⟩ (b :: y) := by
  have hline : Steps machine ⟨.headerValueDiscardWs, 0, none, d⟩ (13 :: 10 :: b :: y) []
      ⟨.headerValueDiscardLws, 0, none, d⟩ (b :: y) := Machine.steps_of_follow 2 rfl
  have hskip : ∀ b, !blankBytes.has b →
      machine.skip 1 .headerValueDiscardLws b = .invokeLoadHeaderState1 :=
    Machine.skip_all rfl 1 rfl rfl
  exact hline.trans (Machine.skip_steps (hskip b (by rw [hb]; rfl)) (none : Option Span) d y)

/-- **A value without bytes.** -/
theorem empty_steps {d : Internal} (hstate : d.headerState ≠ 2) {b : UInt8}
    (hb : blankBytes.has b = false) (y : Bytes) :
    Steps machine ⟨.headerValueDiscardWs, 0, none, d⟩ (13 :: 10 :: b :: y)
      [.report .headerValueComplete] ⟨.headerFieldStart, 0, none, d.settle⟩ (b :: y) := by
  have hload := Machine.invoke_steps (m := machine) (l := .invokeLoadHeaderState1) rfl
    (none : Option Span) d (b :: y)
  have hlookup : lookup [(2, Label.error48)] .invokeLoadHeaderState2 (loadHeaderState d).2
      = .invokeLoadHeaderState2 := by simp [lookup, loadHeaderState, hstate.symm]
  rw [hlookup] at hload
  have hsettle := settle_steps (l := .invokeLoadHeaderState2) rfl rfl rfl rfl rfl rfl none d (b :: y)
  exact (empty_line d hb y).trans
    (hload.trans (hsettle.trans (Machine.steps_of_follow 3 rfl)))

/-- A `Content-Length` without bytes is an error. -/
theorem empty_rejects {d : Internal} (hstate : d.headerState = 2) {b : UInt8}
    (hb : blankBytes.has b = false) (y : Bytes) :
    Rejects machine ⟨.headerValueDiscardWs, 0, none, d⟩ (13 :: 10 :: b :: y) 11 := by
  have hload := Machine.invoke_steps (m := machine) (l := .invokeLoadHeaderState1) rfl
    (none : Option Span) d (b :: y)
  have hlookup : lookup [(2, Label.error48)] .invokeLoadHeaderState2 (loadHeaderState d).2
      = .error48 := by
    rw [loadHeaderState, hstate]
    rfl
  rw [hlookup] at hload
  exact ((empty_line d hb y).trans hload).rejects (.of_stop rfl)

/-- The bytes of a value that do not matter. -/
theorem headerValue_steps (d : Internal) {x : Bytes} (hx : IsValue x) (y : Bytes) :
    Steps machine ⟨.headerValue, 0, some .headerValue, d⟩ (x ++ 13 :: y)
      (eatenAll (some .headerValue) x) ⟨.headerValueOtherwise, 0, some .headerValue, d⟩ (13 :: y) := by
  have hglide : ∀ b, valueBytes.has b → machine.glide 1 .headerValue b = some .headerValue :=
    Machine.glide_all rfl 0 rfl rfl
  have hloop := Machine.loop_steps (fun b hb => hglide b (hx b hb)) (some .headerValue) d (13 :: y)
  exact hloop.silent (Machine.steps_of_follow 1 rfl)

/-! ## `Content-Length`

Digits and then only spaces. A number that does not fit in 64 bits, and anything else behind the
digits, is an error; so is a second `Content-Length`, even with the same number. -/

def isDecimal (b : UInt8) : Bool := (decimalDigit b).isSome

/-- The number in a `Content-Length`: digits, and then only spaces. -/
def lengthOf (value : Bytes) : Option Nat :=
  let n := numeral 10 decimalDigit (value.takeWhile isDecimal)
  if (value.dropWhile isDecimal).all (· = 32) ∧ n < 2 ^ 64 then some n else none

theorem counts_decimal : Counts 10 decimalDigit .headerValueContentLength .spanEndOnHeaderValue6
    .invokeMulAddContentLength1 := by
  have hall : allBytes fun b => (decimalDigit b).all fun m => m < 10 &&
      machine.glide 1 .headerValueContentLength b = some (.invokeMulAddContentLength1 m) :=
    rfl
  refine ⟨by decide, fun _ => rfl, fun b m h => ?_, fun b m h => ?_⟩
  all_goals
    have hb := of_allBytes hall b
    simp only [h, Option.all_some, Bool.and_eq_true, decide_eq_true_eq] at hb
  · exact hb.2
  · exact Nat.lt_trans hb.1 (by decide)

/-- Behind the digits. -/
theorem contentLengthWs_steps (d : Internal) {ws : Bytes} (hws : ∀ b ∈ ws, b = 32) (y : Bytes) :
    Steps machine ⟨.headerValueContentLengthWs, 0, some .headerValue, d⟩ (ws ++ y)
      (eatenAll (some .headerValue) ws)
      ⟨.headerValueContentLengthWs, 0, some .headerValue, d⟩ y := by
  refine Machine.loop_steps (n := 1) (fun b hb => ?_) _ d y
  rw [hws b hb]
  rfl

/-- What is not a digit ends the number. -/
theorem number_end (d : Internal) {b : UInt8} (hb : isDecimal b = false) (y : Bytes) :
    Steps machine ⟨.headerValueContentLength, 0, some .headerValue, d⟩ (b :: y) []
      ⟨.headerValueContentLengthWs, 0, some .headerValue, d⟩ (b :: y) := by
  have hskip : ∀ b, !isDecimal b →
      machine.skip 1 .headerValueContentLength b = .headerValueContentLengthWs :=
    Machine.skip_all rfl 10 rfl rfl
  exact Machine.skip_steps (hskip b (by rw [hb]; rfl)) _ d y

/-- Behind the digits there is something else than spaces. -/
theorem ws_rejects (d : Internal) {x : Bytes} (hx : IsValue x) (h : ¬ x.all (· = 32)) (y : Bytes) :
    Rejects machine ⟨.headerValueContentLengthWs, 0, some .headerValue, d⟩ (x ++ 13 :: y) 11 := by
  rcases dropWhile_cases (· = 32) x with hnil | ⟨b, rest, hrest, hb⟩
  · exact absurd (List.all_eq_true.mpr (List.dropWhile_eq_nil_iff.mp hnil)) h
  · have heq : x = x.takeWhile (· = 32) ++ b :: rest := by
      rw [← hrest, List.takeWhile_append_dropWhile]
    have hin : valueBytes.has b := hx b (by rw [heq]; simp)
    have hskip : ∀ b, valueBytes.has b && !decide (b = 32) →
        machine.skip 1 .headerValueContentLengthWs b = .spanEndOnHeaderValue7 :=
      Machine.skip_all rfl 2 rfl rfl
    have hspaces : ∀ c ∈ x.takeWhile (· = 32), c = 32 := by
      intro c hc
      have h32 := List.mem_takeWhile_imp hc
      simpa using h32
    have hws := contentLengthWs_steps d hspaces (b :: rest ++ 13 :: y)
    rw [← List.append_assoc, ← heq] at hws
    have hgo := Machine.skip_steps (hskip b (by rw [hin, hb]; rfl)) (some .headerValue) d
      (rest ++ 13 :: y)
    exact (hws.trans hgo).rejects (.of_follow 1 rfl rfl)

theorem decimal_takeWhile (x : Bytes) : ∀ b ∈ x.takeWhile isDecimal, (decimalDigit b).isSome :=
  fun b hb => show isDecimal b from List.mem_takeWhile_imp hb

/-- The digits of a `Content-Length` that fits. -/
theorem digits_steps {d : Internal} (hzero : d.contentLength = 0) {value : Bytes}
    (hfits : numeral 10 decimalDigit (value.takeWhile isDecimal) < 2 ^ 64) (y : Bytes) :
    Steps machine ⟨.headerValueContentLength, 0, some .headerValue, d⟩ (value ++ 13 :: y)
      (eatenAll (some .headerValue) (value.takeWhile isDecimal))
      ⟨.headerValueContentLengthWs, 0, some .headerValue,
        { d with contentLength := numeral 10 decimalDigit (value.takeWhile isDecimal) }⟩
      (value.dropWhile isDecimal ++ 13 :: y) := by
  have hread := counts_decimal.steps (decimal_takeWhile value) (d := d) (by rw [hzero]; exact hfits)
    (some .headerValue) (value.dropWhile isDecimal ++ 13 :: y)
  rw [← List.append_assoc, List.takeWhile_append_dropWhile, hzero] at hread
  refine hread.silent ?_
  rcases dropWhile_cases isDecimal value with hrest | ⟨b, rest, hrest, hb⟩
  · rw [hrest]
    exact number_end _ rfl y
  · rw [hrest]
    exact number_end _ hb (rest ++ 13 :: y)

/-- **A `Content-Length` is read.** -/
theorem contentLength_steps {d : Internal} (hzero : d.contentLength = 0) {value : Bytes} {n : Nat}
    (hlength : lengthOf value = some n) (y : Bytes) :
    Steps machine ⟨.headerValueContentLength, 0, some .headerValue, d⟩ (value ++ 13 :: y)
      (eatenAll (some .headerValue) value)
      ⟨.headerValueOtherwise, 0, some .headerValue,
        { d with contentLength := n, flags := { d.flags with contentLength := true } }⟩ (13 :: y) := by
  obtain ⟨⟨hspaces, hfits⟩, hn⟩ := Option.ite_none_right_eq_some.mp hlength
  obtain rfl := Option.some.inj hn
  have hws : ∀ b ∈ value.dropWhile isDecimal, b = 32 :=
    fun b hb => of_decide_eq_true (List.all_eq_true.mp hspaces b hb)
  have hread := (digits_steps hzero hfits y).trans (contentLengthWs_steps _ hws (13 :: y))
  rw [← eatenAll_append, List.takeWhile_append_dropWhile] at hread
  exact hread.silent (Machine.steps_of_follow 2 rfl)

/-- **Another `Content-Length` is an error**: one with something else than a number in it, and one
that does not fit in 64 bits. -/
theorem contentLength_rejects {d : Internal} (hzero : d.contentLength = 0) {value : Bytes}
    (hvalue : IsValue value) (hlength : lengthOf value = none) (y : Bytes) :
    Rejects machine ⟨.headerValueContentLength, 0, some .headerValue, d⟩ (value ++ 13 :: y) 11 := by
  rcases Nat.lt_or_ge (numeral 10 decimalDigit (value.takeWhile isDecimal)) (2 ^ 64) with hfits | hover
  · refine (digits_steps hzero hfits y).rejects ?_
    have hspaces : ¬ (value.dropWhile isDecimal).all (· = 32) := by
      intro hall
      rw [lengthOf, if_pos ⟨hall, hfits⟩] at hlength
      cases hlength
    have hrest : IsValue (value.dropWhile isDecimal) :=
      fun b hb => hvalue b ((List.dropWhile_suffix isDecimal).subset hb)
    exact ws_rejects _ hrest hspaces y
  · have hread := counts_decimal.overflows (decimal_takeWhile value) (d := d)
      (by rw [hzero]; decide) (by rw [hzero]; exact hover)
      (some .headerValue) (value.dropWhile isDecimal ++ 13 :: y)
    rw [← List.append_assoc, List.takeWhile_append_dropWhile] at hread
    obtain ⟨es, d', v, hsteps⟩ := hread
    exact hsteps.rejects (.of_follow 1 rfl rfl)

end Rslinker.Internal
