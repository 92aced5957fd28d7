import Rslinker.Llhttp.Machine
import Rslinker.Basic.ScannerBytes

set_option autoImplicit false

/-! # The bytes that llhttp reports

Which bytes llhttp accepts in a span, and next to which bytes it cuts the value of a header.

The facts are tables over the nodes, to be checked against what the nodes do with single bytes
(`node_agrees`): which byte may come next, which one has come last, and which ones are in the open
span. Names and parts of the request line are ASCII, since the tables of llhttp have nothing else.
A value may have bytes from 128 on, but in front of it there is a blank, a colon or a line feed,
and behind it an ASCII character, unless all of its bytes are such.
-/

namespace Rslinker.Internal

open Scan

def asciiBytes : ByteSet := [(0, 127)]

def beforeValue : ByteSet := [(9, 10), (32, 32), (58, 58)]

def ahead : Label → ByteSet
  | .spanStartStubPath | .spanStartStubPath1 => chars ['/']
  | .spanStartStubPath2 => chars ['*', '/']
  | .spanEndStubQuery3 => chars ['#']
  | .spanEndStubSchema | .spanEndOnHeaderField1 | .spanEndOnHeaderField2 => chars [':']
  | .invokeTestLenientFlags13 | .spanEndOnHeaderField => chars [' ']
  | .headerValueOtherwise | .invokeOrFlags17 | .invokeUpdateHeaderState8
  | .invokeTestLenientFlags18 | .spanEndOnHeaderValue1 | .spanEndOnHeaderValue2
  | .spanEndOnHeaderValue3 | .invokeLoadType1 | .invokeTestLenientFlags19
  | .spanEndOnHeaderValue8 => asciiBytes
  | _ => .full

def behind : Label → ByteSet
  | .invokeOnHeaderFieldComplete | .invokeLoadHeaderState | .invokeTestFlags4 | .invokeTestFlags5
  | .headerValueDiscardWs | .headerValueDiscardLws | .invokeLoadHeaderState1
  | .invokeLoadHeaderState2 | .invokeOrFlags5 | .invokeOrFlags6 | .invokeOrFlags7
  | .invokeOrFlags8 | .invokeUpdateHeaderState | .spanStartOnHeaderValue
  | .spanStartOnHeaderValue1 | .headerValueLws | .invokeLoadHeaderState4
  | .invokeUpdateHeaderState1 => beforeValue
  | _ => .full

def spanBytes : Span → ByteSet
  | .method => [(45, 45), (65, 90), (95, 95)]
  | .url => [(33, 126)]
  | .version => [(46, 46), (48, 57)]
  | .headerField | .chunkExtensionName => tokenBytes
  | .headerValue => valueBytes
  | .chunkExtensionValue => [(9, 9), (32, 255)]
  | .body => .full

def inside : Label → ByteSet
  -- the span has just been opened
  | .spanEndOnHeaderValue | .invokeLoadHeaderState3 | .invokeTestFlags2 | .invokeTestFlags3
  | .invokeLoadType2 | .invokeTestLenientFlags20 | .spanEndOnHeaderValue9 | .invokeOrFlags18
  | .invokeAndFlags | .invokeOrFlags20 => []
  | .headerValueContentLength | .invokeMulAddContentLength1 _ | .headerValueContentLengthWs
  | .spanEndOnHeaderValue6 | .spanEndOnHeaderValue7 => [(32, 32), (48, 57)]
  | l => ((openSpan l).map spanBytes).getD .full

/-- The nodes that do not fold the case of what they read. -/
def isPlain : Label → Bool
  | .headerField | .headerField1 | .headerField2 | .headerField3 | .headerField4 | .headerField5
  | .headerField6 | .headerField7 | .headerValueConnection | .headerValueConnection1
  | .headerValueConnection2 | .headerValueConnection3 | .headerValueTeChunked => false
  | _ => true

def facts : Facts Label Span where
  ahead := ahead
  behind := behind
  inside := inside
  before k := if k = .headerValue then beforeValue else .full
  after k := if k = .headerValue then asciiBytes else .full
  bytes := spanBytes
  plain := isPlain

theorem node_agrees (l : Label) : (node l).agrees facts l := by
  cases l with
  | invokeStoreMethod1 | invokeMulAddContentLength | invokeStoreHeaderState
  | invokeMulAddContentLength1 | invokeStoreHttpMajor | invokeStoreHttpMinor => rfl
  | _ => decide +kernel

theorem isPlain_fold (l : Label) (h : isPlain l) : (node l).fold = id := by
  cases l <;> first | rfl | cases h

theorem looksAhead_ahead (l : Label) (h : looksAhead l = false) : ByteSet.full.sub (ahead l) := by
  cases l <;> first | rfl | cases h

theorem inside_sub (l : Label) (k : Span) (h : openSpan l = some k) :
    (inside l).sub (spanBytes k) := by
  cases l <;> cases h <;> rfl

theorem facts_agree : facts.Agree scanner where
  node := node_agrees
  plain := isPlain_fold
  ahead := looksAhead_ahead
  bytes := inside_sub

/-- **The bytes of a span that is called back.** -/
theorem callback_bytes (s : llhttp.State) (bytes : Bytes) {k : Span} {start stop : Nat}
    (hmem : .span k start stop ∈ (s.call bytes).2.1) :
    ∀ b ∈ piece bytes start stop, (spanBytes k).has b :=
  (call_known facts_agree s bytes hmem).bytes

end Rslinker.Internal
