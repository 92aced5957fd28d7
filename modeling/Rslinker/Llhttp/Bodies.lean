import Rslinker.Llhttp.Heads

set_option autoImplicit false

/-! # Bodies

A body is as long as `Content-Length` tells, or comes in chunks. Each chunk has its size in front of
it, with as many hexadecimal digits as fit in 64 bits, and perhaps extensions; behind the last one,
which is empty, there are trailers. What is called back of a body are the bytes of its data.

`body_outcome` is for all kinds of bodies together. It is about any data that a head may have left,
since the kind and the length of the body are in these data and nowhere in the bytes of the body.
-/

namespace Rslinker.Internal

open Scan

/-! ## Chunks

A chunk as it is sent, with the size written out: there is more than one way to write a number,
with either case of letters and with zeros in front. An extension is a name, and perhaps a value
that is a token; quoted values are not modelled as data, although the nodes for them are there. -/

/-- A chunk: its size, its extensions, each a name and perhaps a value, and its data. -/
structure Chunk where
  size : Bytes
  extensions : List (Bytes × Option Bytes)
  data : Bytes
  deriving DecidableEq, Repr

inductive Body
  /-- what `Content-Length` counts; without one there is nothing -/
  | fixed (data : Bytes)
  /-- the chunks, the last one among them, and the trailers -/
  | chunked (chunks : List Chunk) (last : Chunk) (trailers : List (Bytes × Bytes))
  deriving DecidableEq, Repr

def isHex (b : UInt8) : Bool := (hexDigit b).isSome

/-- The size of a chunk. -/
def IsSize (x : Bytes) (n : Nat) : Prop :=
  x ≠ [] ∧ (∀ b ∈ x, isHex b) ∧ numeral 16 hexDigit x = n

def IsExtension (e : Bytes × Option Bytes) : Prop :=
  e.1 ≠ [] ∧ IsToken e.1 ∧ ∀ value ∈ e.2, IsToken value

/-- The size is that of the data. -/
structure IsChunk (c : Chunk) : Prop where
  size : IsSize c.size c.data.length
  fits : c.data.length < 2 ^ 64
  extensions : ∀ e ∈ c.extensions, IsExtension e

def extensionBytes (e : Bytes × Option Bytes) : Bytes :=
  e.1 ++ (match e.2 with
    | none => []
    | some value => 61 :: value)

def extensionsBytes (es : List (Bytes × Option Bytes)) : Bytes :=
  es.flatMap fun e => 59 :: extensionBytes e

def sizeBytes (c : Chunk) : Bytes := c.size ++ (extensionsBytes c.extensions ++ [13, 10])

def chunkBytes (c : Chunk) : Bytes := sizeBytes c ++ (c.data ++ [13, 10])

def Body.bytes : Body → Bytes
  | .fixed data => data
  | .chunked chunks last trailers =>
      chunks.flatMap chunkBytes ++ (sizeBytes last ++ (fieldsBytes trailers ++ [13, 10]))

def extensionEvents (e : Bytes × Option Bytes) : List (Event Span Report) :=
  eatenAll (some .chunkExtensionName) e.1 ++ .report .chunkExtensionNameComplete ::
    match e.2 with
    | none => []
    | some value =>
        eatenAll (some .chunkExtensionValue) value ++ [.report .chunkExtensionValueComplete]

def sizeEvents (c : Chunk) : List (Event Span Report) :=
  c.extensions.flatMap extensionEvents ++ [.report .chunkHeader]

def chunkEvents (c : Chunk) : List (Event Span Report) :=
  sizeEvents c ++ (eatenAll (some .body) c.data ++ [.report .chunkComplete])

def Body.events : Body → List (Event Span Report)
  | .fixed data => eatenAll (some .body) data
  | .chunked chunks last trailers =>
      chunks.flatMap chunkEvents ++ (sizeEvents last ++ (fieldsEvents trailers ++
        [.report .chunkComplete]))

/-! ## The size of a chunk

The size is counted into `content_length`, which is what the data nodes then spend. It is reset in
front of each chunk. A size of 2^64 or more is an error at the digit that does not fit. -/

theorem counts_hex :
    Counts 16 hexDigit .chunkSize .error36 .invokeMulAddContentLength := by
  have hall : allBytes fun b => (hexDigit b).all fun m => m < 16 &&
      machine.glide 1 .chunkSize b = some (.invokeMulAddContentLength m) :=
    rfl
  refine ⟨by decide, fun _ => rfl, fun b m h => ?_, fun b m h => ?_⟩
  all_goals
    have hb := of_allBytes hall b
    simp only [h, Option.all_some, Bool.and_eq_true, decide_eq_true_eq] at hb
  · exact hb.2
  · exact Nat.lt_trans hb.1 (by decide)

/-- There is at least one digit, and then a size goes on like one that has begun. -/
theorem size_begin {b : UInt8} (hb : isHex b) (d : Internal) (y : Bytes) :
    ∃ m, hexDigit b = some m ∧
      Steps machine ⟨.chunkSizeDigit, 0, none, d⟩ (b :: y) []
        ⟨.invokeMulAddContentLength m, 0, none, d⟩ y := by
  have hall : allBytes fun b => (hexDigit b).all fun m =>
      machine.glide 1 .chunkSizeDigit b = some (.invokeMulAddContentLength m) :=
    rfl
  obtain ⟨m, hm⟩ := Option.isSome_iff_exists.mp hb
  have hglide := of_allBytes hall b
  simp only [hm, Option.all_some, decide_eq_true_eq] at hglide
  exact ⟨m, hm, Machine.glide_steps hglide none d y⟩

/-- **A size is read.** -/
theorem size_steps {x : Bytes} {n : Nat} (h : IsSize x n) (hfits : n < 2 ^ 64) {d : Internal}
    (hzero : d.contentLength = 0) (y : Bytes) :
    Steps machine ⟨.chunkSizeDigit, 0, none, d⟩ (x ++ y) []
      ⟨.chunkSize, 0, none, { d with contentLength := n }⟩ y := by
  obtain ⟨hne, hdigits, rfl⟩ := h
  obtain ⟨b, x, rfl⟩ := List.exists_cons_of_ne_nil hne
  obtain ⟨m, hm, hbegin⟩ := size_begin (hdigits b List.mem_cons_self) d (x ++ y)
  have hvalue : numeral 16 hexDigit (b :: x)
      = extend 16 (d.contentLength * 16 + m) (x.filterMap hexDigit) := by
    rw [numeral, List.filterMap_cons_some hm, extend_cons, hzero]
  rw [hvalue] at hfits ⊢
  have hfirst : d.contentLength * 16 + m < 2 ^ 64 :=
    Nat.lt_of_le_of_lt (le_extend (by decide) _ _) hfits
  have hrest := counts_hex.steps (fun b' hb' => hdigits b' (List.mem_cons_of_mem b hb'))
    (d := { d with contentLength := d.contentLength * 16 + m }) hfits none y
  rw [eatenAll_none] at hrest
  exact hbegin.trans ((counts_hex.enter_steps hfirst none (x ++ y)).trans hrest)

/-- **A size that does not fit in 64 bits is an error.** -/
theorem size_rejects {x : Bytes} {n : Nat} (h : IsSize x n) (hover : 2 ^ 64 ≤ n) {d : Internal}
    (hzero : d.contentLength = 0) (y : Bytes) :
    Rejects machine ⟨.chunkSizeDigit, 0, none, d⟩ (x ++ y) 12 := by
  obtain ⟨hne, hdigits, rfl⟩ := h
  obtain ⟨b, x, rfl⟩ := List.exists_cons_of_ne_nil hne
  obtain ⟨m, hm, hbegin⟩ := size_begin (hdigits b List.mem_cons_self) d (x ++ y)
  have hsmall := counts_hex.small b m hm
  rw [numeral, List.filterMap_cons_some hm, extend_cons, ← hzero] at hover
  rcases Nat.lt_or_ge (d.contentLength * 16 + m) (2 ^ 64) with hfirst | hfirst
  · obtain ⟨es, d', v, hsteps⟩ := counts_hex.overflows
      (fun b' hb' => hdigits b' (List.mem_cons_of_mem b hb'))
      (d := { d with contentLength := d.contentLength * 16 + m }) hfirst hover none y
    exact (hbegin.trans ((counts_hex.enter_steps hfirst none (x ++ y)).trans hsteps)).rejects
      (.of_stop rfl)
  · exact (hbegin.trans (counts_hex.overflow_steps hsmall hfirst none (x ++ y))).rejects
      (.of_stop rfl)

/-! ## Extensions

Every name and every value is a span of its own, each followed by a report. They do not matter for
the data, but their bytes must not be taken for data. -/

/-- Where the byte behind an extension leads. -/
def extensionNext (b : UInt8) : Label := if b = 13 then .chunkSizeAlmostDone else .chunkExtensions

/-- **An extension is read**, with the byte behind it. -/
theorem extension_steps (d : Internal) {e : Bytes × Option Bytes} (he : IsExtension e) {b : UInt8}
    (hb : b = 13 ∨ b = 59) (y : Bytes) :
    Steps machine ⟨.chunkExtensions, 0, none, d⟩ (extensionBytes e ++ b :: y) (extensionEvents e)
      ⟨extensionNext b, 0, none, d⟩ y := by
  obtain ⟨name, value⟩ := e
  obtain ⟨hne, hname, hvalue⟩ := he
  have hopen : ∀ x, Steps machine ⟨.chunkExtensions, 0, none, d⟩ (name ++ x) []
      ⟨.chunkExtensionName, 0, some .chunkExtensionName, d⟩ (name ++ x) := by
    intro x
    obtain ⟨c, rest, rfl⟩ := List.exists_cons_of_ne_nil hne
    have hskip : ∀ b, tokenBytes.has b →
        machine.skip 1 .chunkExtensions b = .spanStartOnChunkExtensionName :=
      Machine.skip_all rfl 2 rfl rfl
    have hgo := Machine.skip_steps (hskip c hname.of_cons.1) (none : Option Span) d (rest ++ x)
    exact hgo.trans (.of_quiet rfl)
  have htakeName : ∀ b, tokenBytes.has b →
      machine.glide 1 .chunkExtensionName b = some .chunkExtensionName :=
    Machine.glide_all rfl 2 rfl rfl
  have htakeValue : ∀ b, tokenBytes.has b →
      machine.glide 1 .chunkExtensionValue b = some .chunkExtensionValue :=
    Machine.glide_all rfl 2 rfl rfl
  have hreadName := Machine.loop_steps (fun b hb => htakeName b (hname b hb))
    (some .chunkExtensionName) d
  cases value with
  | none =>
      have hend : Steps machine ⟨.chunkExtensionName, 0, some .chunkExtensionName, d⟩ (b :: y)
          [.report .chunkExtensionNameComplete] ⟨extensionNext b, 0, none, d⟩ y := by
        rcases hb with rfl | rfl <;> exact Machine.steps_of_follow 3 rfl
      have hsteps := (hopen (b :: y)).trans ((hreadName (b :: y)).trans hend)
      simpa [extensionBytes, extensionEvents] using hsteps
  | some value =>
      have hequals : Steps machine ⟨.chunkExtensionName, 0, some .chunkExtensionName, d⟩
          (61 :: (value ++ b :: y)) [.report .chunkExtensionNameComplete]
          ⟨.chunkExtensionValue, 0, some .chunkExtensionValue, d⟩ (value ++ b :: y) := by
        rcases value with _ | ⟨v, value⟩ <;> exact Machine.steps_of_follow 4 rfl
      have hreadValue := Machine.loop_steps
        (fun b hb => htakeValue b (hvalue value rfl b hb)) (some .chunkExtensionValue) d (b :: y)
      have hend : Steps machine ⟨.chunkExtensionValue, 0, some .chunkExtensionValue, d⟩ (b :: y)
          [.report .chunkExtensionValueComplete] ⟨extensionNext b, 0, none, d⟩ y := by
        rcases hb with rfl | rfl <;> exact Machine.steps_of_follow 3 rfl
      have hsteps := (hopen (61 :: (value ++ b :: y))).trans ((hreadName _).trans
        (hequals.trans (hreadValue.trans hend)))
      simpa [extensionBytes, extensionEvents] using hsteps

/-- Extensions are read, up to the end of the line. -/
theorem extensions_steps (d : Internal) {es : List (Bytes × Option Bytes)}
    (hes : ∀ e ∈ es, IsExtension e) (y : Bytes) :
    Steps machine ⟨.chunkSizeOtherwise, 0, none, d⟩ (extensionsBytes es ++ 13 :: y)
      (es.flatMap extensionEvents) ⟨.chunkSizeAlmostDone, 0, none, d⟩ y := by
  cases es with
  | nil => exact Machine.steps_of_follow 1 rfl
  | cons e es =>
      -- from one semicolon to the next one
      have hrest : ∀ (es : List (Bytes × Option Bytes)) (e : Bytes × Option Bytes),
          (∀ e' ∈ e :: es, IsExtension e') →
          Steps machine ⟨.chunkExtensions, 0, none, d⟩
            (extensionBytes e ++ (extensionsBytes es ++ 13 :: y))
            ((e :: es).flatMap extensionEvents) ⟨.chunkSizeAlmostDone, 0, none, d⟩ y := by
        intro es
        induction es with
        | nil =>
            intro e he
            have hlast := extension_steps d (he e List.mem_cons_self) (.inl rfl) y
            simpa [extensionsBytes, extensionNext] using hlast
        | cons e' es ih =>
            intro e he
            have hfirst := extension_steps d (he e List.mem_cons_self) (b := 59) (.inr rfl)
              (extensionBytes e' ++ (extensionsBytes es ++ 13 :: y))
            have hnext := hfirst.trans (ih e' fun e'' he'' => he e'' (List.mem_cons_of_mem e he''))
            simpa [extensionsBytes] using hnext
      have hsemicolon : Steps machine ⟨.chunkSizeOtherwise, 0, none, d⟩
          (59 :: (extensionBytes e ++ (extensionsBytes es ++ 13 :: y))) []
          ⟨.chunkExtensions, 0, none, d⟩ (extensionBytes e ++ (extensionsBytes es ++ 13 :: y)) :=
        Machine.steps_of_follow 1 rfl
      have hsteps := hsemicolon.trans (hrest es e hes)
      simpa [extensionsBytes] using hsteps

/-- **The line of a size is read.** -/
theorem sizeLine_steps {c : Chunk} (hsize : IsSize c.size c.data.length)
    (hfits : c.data.length < 2 ^ 64) (hes : ∀ e ∈ c.extensions, IsExtension e) {d : Internal}
    (hzero : d.contentLength = 0) (y : Bytes) :
    Steps machine ⟨.chunkSizeDigit, 0, none, d⟩ (sizeBytes c ++ y) (sizeEvents c)
      ⟨.invokeIsEqualContentLength, 0, none, { d with contentLength := c.data.length }⟩ y := by
  have hread := size_steps hsize hfits hzero (extensionsBytes c.extensions ++ 13 :: 10 :: y)
  have hend : Steps machine ⟨.chunkSize, 0, none, { d with contentLength := c.data.length }⟩
      (extensionsBytes c.extensions ++ 13 :: 10 :: y) []
      ⟨.chunkSizeOtherwise, 0, none, { d with contentLength := c.data.length }⟩
      (extensionsBytes c.extensions ++ 13 :: 10 :: y) := by
    rcases c.extensions with _ | ⟨e, es⟩ <;> exact Machine.steps_of_follow 1 rfl
  have hextensions := extensions_steps { d with contentLength := c.data.length } hes (10 :: y)
  have hline : Steps machine ⟨.chunkSizeAlmostDone, 0, none, { d with contentLength := c.data.length }⟩
      (10 :: y) [.report .chunkHeader]
      ⟨.invokeIsEqualContentLength, 0, none, { d with contentLength := c.data.length }⟩ y :=
    Machine.steps_of_follow 2 rfl
  have hsteps := hread.trans (hend.trans (hextensions.trans hline))
  simpa [sizeBytes, sizeEvents] using hsteps

/-! ## Data

The data are as many bytes as the size tells, whatever they are, and a line end behind them. A
chunk of size zero has no data; behind it come the trailers, which end as a head ends. -/

/-- As many bytes as the length tells are the data. -/
theorem data_steps {l consume close : Label} (hopen : node l = .spanStart .body consume)
    (hconsume : node consume = .consume close) {data : Bytes} (hne : data ≠ []) (d : Internal)
    (y : Bytes) :
    Steps machine ⟨l, 0, none, { d with contentLength := data.length }⟩ (data ++ y)
      (eatenAll (some .body) data) ⟨close, 0, some .body, { d with contentLength := 0 }⟩ y := by
  have hbegin : Steps machine ⟨l, 0, none, { d with contentLength := data.length }⟩ (data ++ y) []
      ⟨consume, 0, some .body, { d with contentLength := data.length }⟩ (data ++ y) := by
    obtain ⟨b, rest, rfl⟩ := List.exists_cons_of_ne_nil hne
    refine .of_quiet ?_
    simp [Machine.move, machine, hopen]
  have htake := steps_consume_all (m := machine)
    (c := ⟨consume, 0, some .body, { d with contentLength := data.length }⟩) hconsume (u := data) rfl y
  have hspent : machine.spend { d with contentLength := data.length } data.length
      = { d with contentLength := 0 } := by
    show spend _ _ = _
    rw [spend, Nat.sub_self]
  rw [hspent] at htake
  exact hbegin.trans htake

/-- **A chunk is read**, and the next one begins. -/
theorem chunk_steps {c : Chunk} (hc : IsChunk c) (hne : c.data ≠ []) (d : Internal) (y : Bytes) :
    Steps machine ⟨.chunkSizeDigit, 0, none, { d with contentLength := 0 }⟩ (chunkBytes c ++ y)
      (chunkEvents c) ⟨.chunkSizeDigit, 0, none, { d with contentLength := 0 }⟩ y := by
  have hline := sizeLine_steps hc.size hc.fits hc.extensions (d := { d with contentLength := 0 }) rfl
    (c.data ++ 13 :: 10 :: y)
  have htest := Machine.invoke_steps (m := machine) (l := .invokeIsEqualContentLength) rfl
    (none : Option Span) { d with contentLength := c.data.length } (c.data ++ 13 :: 10 :: y)
  have hlookup : lookup [(0, Label.spanStartOnBody)] .invokeOrFlags
      (isEqualContentLength { d with contentLength := c.data.length }).2 = .spanStartOnBody := by
    simp [isEqualContentLength, hne, lookup]
  rw [hlookup] at htest
  have hdata := data_steps (show node .spanStartOnBody = .spanStart .body _ from rfl) rfl hne d
    (13 :: 10 :: y)
  have hend : Steps machine ⟨.spanEndOnBody, 0, some .body, { d with contentLength := 0 }⟩
      (13 :: 10 :: y) [.report .chunkComplete]
      ⟨.chunkSizeDigit, 0, none, { d with contentLength := 0 }⟩ y := Machine.steps_of_follow 5 rfl
  have hsteps := hline.trans (htest.trans (hdata.trans hend))
  simpa [chunkBytes, chunkEvents] using hsteps

/-- Chunks are read, one after the other. -/
theorem chunks_steps {cs : List Chunk} (hcs : ∀ c ∈ cs, IsChunk c ∧ c.data ≠ []) (d : Internal)
    (y : Bytes) :
    Steps machine ⟨.chunkSizeDigit, 0, none, { d with contentLength := 0 }⟩
      (cs.flatMap chunkBytes ++ y) (cs.flatMap chunkEvents)
      ⟨.chunkSizeDigit, 0, none, { d with contentLength := 0 }⟩ y := by
  induction cs with
  | nil => exact .refl _ y
  | cons c cs ih =>
      obtain ⟨hc, hne⟩ := hcs c List.mem_cons_self
      have hfirst := chunk_steps hc hne d (cs.flatMap chunkBytes ++ y)
      have hsteps := hfirst.trans (ih fun c' hc' => hcs c' (List.mem_cons_of_mem c hc'))
      simpa using hsteps

/-- The last chunk is read, and the trailers begin. -/
theorem last_steps {c : Chunk} (hc : IsChunk c) (hempty : c.data = []) (d : Internal) (y : Bytes) :
    Steps machine ⟨.chunkSizeDigit, 0, none, { d with contentLength := 0 }⟩ (sizeBytes c ++ y)
      (sizeEvents c) ⟨.headerFieldStart, 0, none,
        { d with contentLength := 0, flags := { d.flags with trailing := true } }⟩ y := by
  have hline := sizeLine_steps hc.size hc.fits hc.extensions (d := { d with contentLength := 0 }) rfl y
  rw [hempty] at hline
  have hend : Steps machine ⟨.invokeIsEqualContentLength, 0, none, { d with contentLength := 0 }⟩ y []
      ⟨.headerFieldStart, 0, none,
        { d with contentLength := 0, flags := { d.flags with trailing := true } }⟩ y :=
    Machine.steps_of_follow 2 rfl
  exact hline.silent hend

/-! ## Bodies

The head says which of the three kinds of bodies there is. The trailers of a body in chunks are
read by the nodes of header fields and may have the same errors. -/

/-- What the codes of `after_headers_complete` mean. -/
def CodeMeans (d : Internal) : Nat → Prop
  | 0 => d.upgrade = false ∧ d.flags.transferEncoding = false ∧ d.contentLength = 0
  | 1 => d.upgrade = true
  | 2 => d.flags.chunked = true
  | 3 => d.flags.transferEncoding = false ∧ d.contentLength ≠ 0
  | 5 => d.flags.transferEncoding = true ∧ d.flags.chunked = false
  | _ => False

theorem afterHeadersComplete_means {d : Internal} (hd : d.Framed) :
    d.CodeMeans d.afterHeadersComplete.2 := by
  rw [afterHeadersComplete]
  dsimp only
  by_cases hpause : (d.upgrade && (d.method = httpConnect ||
      !(d.flags.chunked || decide (d.contentLength > 0)))) = true
  · rw [if_pos hpause]
    exact (Bool.and_eq_true_iff.mp hpause).1
  rw [if_neg hpause]
  by_cases hchunked : d.flags.chunked = true
  · rw [if_pos hchunked]
    exact hchunked
  rw [if_neg hchunked]
  by_cases hcoding : d.flags.transferEncoding = true
  · rw [if_pos hcoding]
    exact ⟨hcoding, by simpa using hchunked⟩
  have hplain : d.flags.transferEncoding = false := by simpa using hcoding
  -- without chunks and without a length there is no body for which an upgrade could wait
  have hno : d.contentLength = 0 → d.upgrade = false := by
    intro hzero
    simpa [hchunked, hzero] using hpause
  rw [if_neg hcoding]
  by_cases hlength : d.flags.contentLength = true
  · rw [if_neg (by simp [hlength])]
    by_cases hzero : d.contentLength = 0
    · rw [if_pos hzero]
      exact ⟨hno hzero, hplain, hzero⟩
    · rw [if_neg hzero]
      exact ⟨hplain, hzero⟩
  · have hzero := hd.sound (by simpa using hlength)
    rw [if_pos (by simpa using hlength)]
    exact ⟨hno hzero, hplain, hzero⟩

/-- The body is the one that the head announces. -/
def Announced (d : Internal) : Body → Prop
  | .fixed data =>
      d.afterHeadersComplete.2 = 3 ∧ data.length = d.contentLength ∨
        d.afterHeadersComplete.2 < 2 ∧ data = []
  | .chunked chunks last trailers =>
      d.afterHeadersComplete.2 = 2 ∧ (∀ c ∈ chunks, IsChunk c ∧ c.data ≠ []) ∧
        (IsChunk last ∧ last.data = []) ∧ AreFields trailers

/-- The data behind a body, or the number of an error in its trailers. -/
def readBody (d : Internal) : Body → Except Nat Internal
  | .fixed data => .ok (d.spend data.length)
  | .chunked _ _ trailers =>
      ({ d with contentLength := 0, flags := { d.flags with trailing := true } } : Internal).fields
        trailers

/-- The nodes that report the end of a message. -/
def endLabel (d : Internal) (body : Body) : Label :=
  match body with
  | .chunked _ _ _ => .invokeOnMessageComplete2
  | .fixed _ =>
      match d.afterHeadersComplete.2 with
      | 0 => .invokeOnMessageComplete
      | 1 => .invokeOnMessageComplete1
      | _ => .invokeOnMessageComplete2

/-- How a body is read, or that it has an error. -/
def BodyOutcome (c : Config Label Internal Span) (x : Bytes) (es : List (Event Span Report))
    (l : Label) (y : Bytes) : Except Nat Internal → Prop
  | .ok d => ∃ s, Steps machine c x es ⟨l, 0, none, { d with headerState := s }⟩ y
  | .error errno => Rejects machine c x errno

theorem Framed.trailing {d : Internal} (h : d.Framed) :
    ({ d with contentLength := 0, flags := { d.flags with trailing := true } } : Internal).Framed :=
  ⟨fun _ => rfl, Nat.two_pow_pos 64, h.exclusive, h.chunked⟩

/-- **A body is read** when it is the one that the head announces. -/
theorem body_outcome {d : Internal} (hd : d.Framed) {body : Body} (h : d.Announced body)
    (y : Bytes) :
    BodyOutcome ⟨.invokeAfterHeadersComplete, 0, none, d⟩ (body.bytes ++ y) body.events
      (d.endLabel body) y (d.readBody body) := by
  have hafter := fun x => Machine.invoke_steps (m := machine) (l := .invokeAfterHeadersComplete) rfl
    (none : Option Span) d x
  cases body with
  | fixed data =>
      have hstart := hafter (data ++ y)
      rcases h with ⟨hcode, hlength⟩ | ⟨hcode, rfl⟩
      · rw [hcode] at hstart
        have hne : data ≠ [] := by
          rintro rfl
          have hmeans := afterHeadersComplete_means hd
          rw [hcode] at hmeans
          exact hmeans.2 hlength.symm
        have hself : { d with contentLength := data.length } = d := by rw [hlength]
        have hdata := data_steps (show node .spanStartOnBody1 = .spanStart .body _ from rfl) rfl hne d y
        have hend : Steps machine ⟨.spanEndOnBody1, 0, some .body, { d with contentLength := 0 }⟩ y []
            ⟨.invokeOnMessageComplete2, 0, none, { d with contentLength := 0 }⟩ y := .of_quiet rfl
        have hlabel : d.endLabel (.fixed data) = .invokeOnMessageComplete2 := by
          simp [endLabel, hcode]
        have hspent : d.spend data.length = { d with contentLength := 0 } := by
          rw [spend, hlength, Nat.sub_self]
        rw [hself] at hdata
        show BodyOutcome _ _ _ _ _ (.ok _)
        rw [hlabel, hspent]
        exact ⟨d.headerState, Steps.trans hstart (hdata.silent hend)⟩
      · show BodyOutcome _ _ _ _ _ (.ok _)
        refine ⟨d.headerState, ?_⟩
        have hlabel : lookup [(1, Label.invokeOnMessageComplete1), (2, .invokeUpdateContentLength1),
            (3, .spanStartOnBody1), (4, .invokeUpdateFinish3), (5, .error39)]
            .invokeOnMessageComplete d.afterHeadersComplete.2 = d.endLabel (.fixed []) := by
          unfold endLabel
          generalize d.afterHeadersComplete.2 = code at hcode
          interval_cases code <;> rfl
        rw [hlabel] at hstart
        exact hstart
  | chunked chunks last trailers =>
      obtain ⟨hcode, hchunks, ⟨hlast, hempty⟩, htrailers⟩ := h
      have hbegin : ∀ x, Steps machine ⟨.invokeAfterHeadersComplete, 0, none, d⟩ x []
          ⟨.chunkSizeDigit, 0, none, { d with contentLength := 0 }⟩ x := by
        intro x
        have hstart := hafter x
        rw [hcode] at hstart
        exact hstart.trans (.of_quiet rfl)
      have hread := (hbegin _).trans ((chunks_steps hchunks d
        (sizeBytes last ++ (fieldsBytes trailers ++ 13 :: 10 :: y))).trans
          (last_steps hlast hempty d (fieldsBytes trailers ++ 13 :: 10 :: y)))
      have hfields := fields_outcome hd.trailing htrailers (b := 13) rfl (10 :: y)
      have hbytes : (Body.chunked chunks last trailers).bytes ++ y = chunks.flatMap chunkBytes
          ++ (sizeBytes last ++ (fieldsBytes trailers ++ 13 :: 10 :: y)) := by
        simp [Body.bytes]
      rw [hbytes, readBody]
      cases hresult : ({ d with contentLength := 0, flags := { d.flags with trailing := true } }
          : Internal).fields trailers with
      | error errno =>
          rw [hresult] at hfields
          exact hread.rejects hfields
      | ok d' =>
          rw [hresult] at hfields
          obtain ⟨s, hsteps⟩ := hfields
          have htrailing : d'.flags.trailing = true := (hd.trailing.fields hresult).2
          have hend := endTrailers_steps (d := { d' with headerState := s }) htrailing y
          refine ⟨s, ?_⟩
          have hall := hread.trans (hsteps.trans hend)
          simpa [Body.events, endLabel] using hall

end Rslinker.Internal
