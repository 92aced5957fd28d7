import Rslinker.Basic.ScannerFeed
import Rslinker.Llhttp.Nodes
import Rslinker.Llhttp.Report

set_option autoImplicit false

/-! # llhttp as a scanner

The nodes of llhttp are a scanner: at every node it is known which span is open and whether there is
a next byte. With this `llhttp_execute` always returns, and never reads outside of its input. What
`RequestParser` uses of llhttp, which is a parameter elsewhere, is here `llhttp`.

The checks run over all nodes, one by one. So a mistake in the transcription of a node that leaves
a span open, or looks at a byte that is not there, would be found here.
-/

namespace Rslinker

namespace Internal

open Scan

/-! ## The annotation

There is no run of the parser behind these tables: they are written down node by node and checked
(`node_fits`). With them the general results about scanners apply, so that everything below is
about bytes and not about pieces of memory. -/

/-- The span that is open at a node. -/
def openSpan : Label → Option Span
  | .afterStartReq | .afterStartReq1 | .afterStartReq2 | .invokeStoreMethod1 _
  | .spanEndOnMethod2 | .error106 | .afterStartReq3 | .afterStartReq4 | .afterStartReq5
  | .afterStartReq6 | .afterStartReq7 | .afterStartReq8 | .afterStartReq9 | .afterStartReq10
  | .afterStartReq11 | .afterStartReq12 | .afterStartReq13 | .afterStartReq14 | .afterStartReq15
  | .afterStartReq16 | .afterStartReq17 | .afterStartReq18 | .afterStartReq19 | .afterStartReq20
  | .afterStartReq21 | .afterStartReq22 | .afterStartReq23 | .afterStartReq24 | .afterStartReq25
  | .afterStartReq26 | .afterStartReq27 | .afterStartReq28 | .afterStartReq29 | .afterStartReq30
  | .afterStartReq31 | .afterStartReq32 | .afterStartReq33 | .afterStartReq34 | .afterStartReq35
  | .afterStartReq36 | .afterStartReq37 | .afterStartReq38 | .afterStartReq39 | .afterStartReq40
  | .afterStartReq41 | .afterStartReq42 | .afterStartReq43 | .afterStartReq44 | .afterStartReq45
  | .afterStartReq46 | .afterStartReq47 | .afterStartReq48 | .afterStartReq49 | .afterStartReq50
  | .afterStartReq51 | .afterStartReq52 | .afterStartReq53 | .afterStartReq54 | .afterStartReq55
  | .afterStartReq56 | .afterStartReq57 | .afterStartReq58 | .afterStartReq59 | .afterStartReq60
  | .afterStartReq61 | .afterStartReq62 | .afterStartReq63 | .afterStartReq64 | .afterStartReq65
  | .afterStartReq66 | .afterStartReq67 | .afterStartReq68 | .afterStartReq69 => some .method
  | .urlStart | .spanStartStubPath2 | .urlPath | .urlQueryOrFragment | .spanEndOnUrl3
  | .spanEndOnUrl4 | .spanEndOnUrl5 | .urlFragment | .spanEndOnUrl6 | .spanEndOnUrl7
  | .spanEndOnUrl8 | .error77 | .urlQuery | .spanEndOnUrl9 | .spanEndOnUrl10 | .spanEndOnUrl11
  | .spanEndStubQuery3 | .error78 | .error79 | .urlSchema | .spanEndStubSchema | .urlSchemaDelim
  | .urlSchemaDelim1 | .urlServer | .spanEndOnUrl | .spanEndOnUrl1 | .spanEndOnUrl2
  | .spanStartStubPath | .urlServerWithAt | .spanEndOnUrl12 | .spanEndOnUrl13 | .spanEndOnUrl14
  | .spanStartStubPath1 | .error80 | .error81 | .error82 | .error83 | .error84 | .error85 => some .url
  | .reqHttpMajor | .invokeStoreHttpMajor _ | .reqHttpDot | .reqHttpMinor
  | .invokeStoreHttpMinor _ | .invokeTestLenientFlags23 | .invokeLoadHttpMajor
  | .invokeLoadHttpMinor | .spanEndOnVersion1 | .spanEndOnVersion | .invokeLoadHttpMinor1
  | .invokeLoadHttpMinor2 | .spanEndOnVersion2 | .spanEndOnVersion3 | .spanEndOnVersion4 => some .version
  | .headerField | .headerField1 | .headerField2 | .headerField3 | .invokeStoreHeaderState _
  | .headerFieldColon | .invokeTestLenientFlags13 | .spanEndOnHeaderField
  | .spanEndOnHeaderField1 | .invokeUpdateHeaderState10 | .headerFieldGeneral
  | .headerFieldGeneralOtherwise | .spanEndOnHeaderField2 | .error60 | .invokeUpdateHeaderState11
  | .headerField4 | .headerField5 | .headerField6 | .headerField7 => some .headerField
  | .spanEndOnHeaderValue | .invokeLoadHeaderState3 | .headerValueConnection
  | .headerValueConnection1 | .invokeUpdateHeaderState3 | .headerValueConnectionWs
  | .headerValueOtherwise | .spanEndOnHeaderValue1 | .spanEndOnHeaderValue2
  | .invokeTestLenientFlags18 | .spanEndOnHeaderValue3 | .invokeLoadHeaderState6
  | .invokeOrFlags13 | .invokeUpdateHeaderState4 | .invokeOrFlags14 | .invokeOrFlags15
  | .invokeOrFlags16 | .invokeUpdateHeaderState5 | .headerValueConnectionToken
  | .headerValueConnection2 | .invokeUpdateHeaderState6 | .headerValueConnection3
  | .invokeUpdateHeaderState7 | .invokeTestFlags2 | .headerValueContentLength
  | .invokeMulAddContentLength1 _ | .spanEndOnHeaderValue6 | .headerValueContentLengthWs
  | .invokeOrFlags17 | .spanEndOnHeaderValue7 | .error53 | .invokeTestFlags3 | .invokeLoadType2
  | .invokeTestLenientFlags20 | .spanEndOnHeaderValue9 | .invokeOrFlags18 | .invokeAndFlags
  | .headerValueTeChunked | .headerValueTeChunkedLast | .invokeUpdateHeaderState8
  | .invokeLoadType1 | .invokeTestLenientFlags19 | .spanEndOnHeaderValue8 | .headerValueTeToken
  | .headerValueTeTokenOws | .invokeUpdateHeaderState9 | .headerValue | .invokeOrFlags20 => some .headerValue
  | .consumeContentLength1 | .spanEndOnBody1 | .eof | .consumeContentLength | .spanEndOnBody => some .body
  | .chunkExtensionName | .spanEndOnChunkExtensionName | .spanEndOnChunkExtensionName1
  | .spanEndOnChunkExtensionName2 | .spanEndOnChunkExtensionName3 | .spanEndOnChunkExtensionName4 => some .chunkExtensionName
  | .invokeOnChunkExtensionNameComplete3 | .chunkExtensionValue | .spanEndOnChunkExtensionValue
  | .spanEndOnChunkExtensionValue1 | .chunkExtensionQuotedValue | .spanEndOnChunkExtensionValue2
  | .chunkExtensionQuotedValueQuotedPair | .spanEndOnChunkExtensionValue3
  | .spanEndOnChunkExtensionValue4 | .spanEndOnChunkExtensionValue5
  | .spanEndOnChunkExtensionValue6 => some .chunkExtensionValue
  | _ => none

/-- The nodes that are only entered in front of a byte. Some of them take it. -/
def looksAhead : Label → Bool
  | .spanStartStubPath | .spanStartStubPath1 | .spanStartStubPath2 | .spanEndStubQuery3
  | .spanEndStubSchema | .invokeTestLenientFlags13 | .spanEndOnHeaderField
  | .spanEndOnHeaderField1 | .spanEndOnHeaderField2 | .invokeLoadHeaderState3 | .invokeTestFlags3
  | .invokeLoadType2 | .invokeTestLenientFlags20 | .spanEndOnHeaderValue9 | .invokeLoadType1
  | .invokeTestLenientFlags19 | .spanEndOnHeaderValue8 | .invokeUpdateHeaderState8
  | .invokeOrFlags17 | .headerValueOtherwise | .spanEndOnHeaderValue1 | .spanEndOnHeaderValue2
  | .invokeTestLenientFlags18 | .spanEndOnHeaderValue3 | .spanEndOnChunkExtensionName1
  | .spanEndOnChunkExtensionName2 | .spanEndOnChunkExtensionName3 | .spanEndOnChunkExtensionName4
  | .spanEndOnChunkExtensionValue1 | .spanEndOnChunkExtensionValue3
  | .spanEndOnChunkExtensionValue4 | .spanEndOnChunkExtensionValue5
  | .spanEndOnChunkExtensionValue6 => true
  | _ => false

/-- A callback in a span that has just been opened. -/
def isFresh : Label → Bool
  | .invokeOnChunkExtensionNameComplete3 => true
  | _ => false

/-- A bad URL is found with the span of the URL and without it. -/
def isDead : Label → Bool
  | .error2 => true
  | _ => false

def machine : Machine Label Internal Span Report where
  node := node
  need := contentLength
  spend := spend
  need_spend := spend_contentLength
  spend_zero := spend_zero
  spend_spend := spend_spend

def annotation : Annotation Label Span := ⟨openSpan, isFresh, looksAhead, isDead⟩

theorem node_fits (l : Label) : (node l).fits annotation l := by
  cases l <;> rfl

theorem node_final (l : Label) (h : isDead l) : (node l).isFinal := by
  cases l <;> first | rfl | cases h

theorem machine_settles : machine.Settles 23 := by
  intro l
  cases l <;> rfl

/-- The parser of requests. -/
def scanner : Scanner Label Internal Span Report where
  toMachine := machine
  annotation := annotation
  fits := node_fits
  final := node_final
  bound := 23
  ends := machine_settles

/-! ## The functions of `api.c`

A call of `llhttp_execute`, the initial state, and a reset. `llhttp` puts them together as what
`RequestParser` takes for its parser; in the modules about the HTTP channel this is a parameter. -/

/-- The state after `llhttp_init`. -/
def initState : State Label Internal Span := ⟨some .start, 0, none, 0, "", init⟩

theorem initState_ok : initState.Ok scanner := by
  refine ⟨fun _ => rfl, ?_, ?_, ?_⟩
  · rintro _ ⟨⟩
    rfl
  · rintro _ ⟨⟩
    exact Bool.false_ne_true
  · rintro _ ⟨⟩
    rfl

def start : Resting scanner := ⟨initState, initState_ok⟩

/-- Where a message starts. -/
def startConfig (d : Internal) : Config Label Internal Span := ⟨.start, 0, none, d⟩

theorem start_waits : start.WaitsAt (startConfig init) := ⟨⟨rfl, rfl, rfl, rfl, rfl⟩, rfl⟩

/-- The callbacks that `RequestParser::new` has set. -/
def callback : Call Span Report → Option Callback
  | .span .method bytes => some (.method bytes)
  | .span .url bytes => some (.url bytes)
  | .span .version bytes => some (.version bytes)
  | .span .headerField bytes => some (.headerField bytes)
  | .span .headerValue bytes => some (.headerValue bytes)
  | .span .body bytes => some (.body bytes)
  | .report .methodComplete => some .methodComplete
  | .report .urlComplete => some .urlComplete
  | .report .versionComplete => some .versionComplete
  | .report .headerValueComplete => some .headerValueComplete
  | .report .headersComplete => some .headersComplete
  | _ => none

end Internal

/-- llhttp as `RequestParser` uses it: `llhttp_execute` and `llhttp_reset`, which keeps only what
`llhttp_init` has got. -/
def llhttp : Llhttp where
  State := Scan.Resting Internal.scanner
  init := Internal.start
  execute s bytes :=
    let r := s.call bytes
    (r.1, (r.2.1.map (Scan.Out.call bytes)).filterMap Internal.callback, r.2.2)
  reset _ := Internal.start

namespace Internal

open Scan

/-- One read after the other. -/
theorem llhttp_parse (s : Resting scanner) (reads : List Bytes) :
    llhttp.parse s reads =
      ((s.parse reads).1.map fun calls => calls.filterMap callback, (s.parse reads).2.2) := by
  induction reads generalizing s with
  | nil => rfl
  | cons data reads ih =>
      rcases hcode : (s.call data).2.2 with _ | errno
      · have hexec : llhttp.execute s data = ((s.call data).1,
            ((s.call data).2.1.map (Out.call data)).filterMap callback, 0) := by
          rw [← hcode]
          rfl
        rw [Llhttp.parse_cons_ok hexec, ih]
        simp [Resting.parse, hcode]
      · have hexec : llhttp.execute s data = ((s.call data).1,
            ((s.call data).2.1.map (Out.call data)).filterMap callback, errno + 1) := by
          rw [← hcode]
          rfl
        rw [Llhttp.parse_cons_error hexec]
        simp [Resting.parse, hcode]

/-- What `llhttp_execute` returns for the last of the reads. -/
theorem parse_code (reads : List Bytes) :
    (llhttp.parse llhttp.init reads).2 = (start.parse reads).2.2 :=
  congrArg Prod.snd (llhttp_parse start reads)

theorem parse_callbacks (reads : List Bytes) :
    (llhttp.parse llhttp.init reads).1.flatten =
      (start.parse reads).1.flatten.filterMap callback := by
  rw [List.filterMap_flatten]
  exact congrArg (List.flatten ∘ Prod.fst) (llhttp_parse start reads)

end Internal

end Rslinker
