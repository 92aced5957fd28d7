import Rslinker.Llhttp.Internal

set_option autoImplicit false

/-! # The nodes of llhttp

The nodes of `llhttp__internal__run` that the parser of a request can reach, under their names in
`llhttp.c` without `s_n_llhttp__internal__n_` and `llhttp__`. The callbacks of the program return 0,
so of a node that calls one back only this case is there; the same goes for the types and the lenient
flags (`Internal`). A lookup table is the list of the sets of bytes that it maps to the same case.
The parts under `__SSE4_2__` skip bytes that the tables accept, and are not compiled in.

Nothing is shortened: a node that only jumps to another one is there as well. Names are those of
the source in the case of this project, so that a `case` of the source is found by its name.
-/

namespace Rslinker.Internal

open Scan

/-- The spans: what an `llhttp__on_..` with two ends is called for. -/
inductive Span
  | method | url | version | headerField | headerValue | body | chunkExtensionName
  | chunkExtensionValue
  deriving DecidableEq, Repr

inductive Report
  | reset | messageBegin | methodComplete | urlComplete | versionComplete | headerFieldComplete
  | headerValueComplete | headersComplete | messageComplete | chunkHeader | chunkComplete
  | chunkExtensionNameComplete | chunkExtensionValueComplete
  deriving DecidableEq, Repr

/-! ## Labels

One label for each node that a request can reach, grouped by the part of the message that it reads.
The nodes for responses are left out, and so are those behind a lenient flag. -/

/-- A node. Some are entered with a `match`, which comes first here. -/
inductive Label
  | invokeStoreMethod1 (m : Nat)
  | invokeMulAddContentLength (m : Nat)
  | invokeStoreHeaderState (m : Nat)
  | invokeMulAddContentLength1 (m : Nat)
  | invokeStoreHttpMajor (m : Nat)
  | invokeStoreHttpMinor (m : Nat)
  -- the beginning of a message
  | start | invokeLoadInitialMessageCompleted | invokeOnReset | invokeUpdateFinish
  | invokeOnMessageBegin | invokeLoadType
  -- the method
  | spanStartOnMethod1 | afterStartReq | afterStartReq1 | afterStartReq2 | spanEndOnMethod2
  | invokeOnMethodComplete1 | error106 | afterStartReq3 | afterStartReq4 | afterStartReq5
  | afterStartReq6 | afterStartReq7 | afterStartReq8 | afterStartReq9 | afterStartReq10
  | afterStartReq11 | afterStartReq12 | afterStartReq13 | afterStartReq14 | afterStartReq15
  | afterStartReq16 | afterStartReq17 | afterStartReq18 | afterStartReq19 | afterStartReq20
  | afterStartReq21 | afterStartReq22 | afterStartReq23 | afterStartReq24 | afterStartReq25
  | afterStartReq26 | afterStartReq27 | afterStartReq28 | afterStartReq29 | afterStartReq30
  | afterStartReq31 | afterStartReq32 | afterStartReq33 | afterStartReq34 | afterStartReq35
  | afterStartReq36 | afterStartReq37 | afterStartReq38 | afterStartReq39 | afterStartReq40
  | afterStartReq41 | afterStartReq42 | afterStartReq43 | afterStartReq44 | afterStartReq45
  | afterStartReq46 | afterStartReq47 | afterStartReq48 | afterStartReq49 | afterStartReq50
  | afterStartReq51 | afterStartReq52 | afterStartReq53 | afterStartReq54 | afterStartReq55
  | afterStartReq56 | afterStartReq57 | afterStartReq58 | afterStartReq59 | afterStartReq60
  | afterStartReq61 | afterStartReq62 | afterStartReq63 | afterStartReq64 | afterStartReq65
  | afterStartReq66 | afterStartReq67 | afterStartReq68 | afterStartReq69
  -- the URL
  | reqFirstSpaceBeforeUrl | reqSpacesBeforeUrl | invokeIsEqualMethod | urlEntryNormal | error2
  | spanStartOnUrl1 | urlStart | spanStartStubPath2 | urlPath | urlQueryOrFragment | spanEndOnUrl3
  | urlSkipToHttp09 | urlToHttp09 | invokeUpdateHttpMajor | invokeUpdateHttpMinor
  | invokeOnUrlComplete | spanEndOnUrl4 | urlSkipLfToHttp09 | urlSkipLfToHttp091 | error61
  | spanEndOnUrl5 | urlSkipToHttp | urlToHttp | invokeOnUrlComplete1 | urlFragment | spanEndOnUrl6
  | spanEndOnUrl7 | spanEndOnUrl8 | error77 | urlQuery | spanEndOnUrl9 | spanEndOnUrl10
  | spanEndOnUrl11 | spanEndStubQuery3 | error78 | error79 | urlSchema | spanEndStubSchema
  | urlSchemaDelim | urlSchemaDelim1 | urlServer | spanEndOnUrl | spanEndOnUrl1 | spanEndOnUrl2
  | spanStartStubPath | urlServerWithAt | spanEndOnUrl12 | spanEndOnUrl13 | spanEndOnUrl14
  | spanStartStubPath1 | error80 | error81 | error82 | error83 | error84 | error85 | urlEntryConnect
  | spanStartOnUrl | error86
  -- the version
  | reqHttpStart | reqHttpStart1 | invokeLoadMethod | spanStartOnVersion | reqHttpMajor | reqHttpDot
  | reqHttpMinor | invokeTestLenientFlags23 | invokeLoadHttpMajor | invokeLoadHttpMinor
  | spanEndOnVersion1 | invokeOnVersionComplete | invokeLoadMethod1 | reqPriUpgrade | error69
  | error70 | reqHttpComplete | invokeTestLenientFlags24 | error66 | reqHttpCompleteCrlf
  | invokeTestLenientFlags25 | error67 | error68 | spanEndOnVersion | error64 | invokeLoadHttpMinor1
  | invokeLoadHttpMinor2 | spanEndOnVersion2 | error71 | spanEndOnVersion3 | error72
  | spanEndOnVersion4 | error73 | error63 | error76 | reqHttpStart2 | invokeLoadMethod2 | error74
  | reqHttpStart3 | invokeLoadMethod3 | error75
  -- the names of headers
  | headersStart | invokeTestLenientFlags | error4 | headerFieldStart | invokeTestLenientFlags1
  | error5 | headersAlmostDone | invokeTestFlags1 | invokeTestLenientFlags12 | error43
  | spanStartOnHeaderField | headerField | headerField1 | headerField2 | headerField3
  | headerFieldColon | invokeTestLenientFlags13 | spanEndOnHeaderField | spanEndOnHeaderField1
  | invokeOnHeaderFieldComplete | invokeUpdateHeaderState10 | headerFieldGeneral
  | headerFieldGeneralOtherwise | spanEndOnHeaderField2 | error60 | invokeUpdateHeaderState11
  | headerField4 | headerField5 | headerField6 | headerField7
  -- the values of headers
  | invokeLoadHeaderState | invokeTestFlags4 | invokeTestLenientFlags21 | error58
  | headerValueDiscardWs | invokeTestLenientFlags14 | error45 | headerValueDiscardWsAlmostDone
  | headerValueDiscardLws | invokeTestLenientFlags15 | error46 | invokeLoadHeaderState1 | error48
  | invokeLoadHeaderState2 | invokeOrFlags5 | invokeUpdateHeaderState | spanStartOnHeaderValue
  | spanEndOnHeaderValue | invokeOnHeaderValueComplete | invokeOrFlags6 | invokeOrFlags7
  | invokeOrFlags8 | invokeTestLenientFlags16 | error49 | spanStartOnHeaderValue1
  | invokeLoadHeaderState3 | headerValueConnection | headerValueConnection1
  | invokeUpdateHeaderState3 | headerValueConnectionWs | headerValueOtherwise
  | spanEndOnHeaderValue1 | invokeTestLenientFlags17 | error50 | spanEndOnHeaderValue2
  | headerValueAlmostDone | headerValueLws | invokeLoadHeaderState4 | invokeUpdateHeaderState1
  | invokeLoadHeaderState5 | invokeOrFlags9 | invokeUpdateHeaderState2 | invokeOrFlags10
  | invokeOrFlags11 | invokeOrFlags12 | error51 | invokeTestLenientFlags18 | spanEndOnHeaderValue3
  | error52 | invokeLoadHeaderState6 | invokeOrFlags13 | invokeUpdateHeaderState4 | invokeOrFlags14
  | invokeOrFlags15 | invokeOrFlags16 | invokeUpdateHeaderState5 | headerValueConnectionToken
  | headerValueConnection2 | invokeUpdateHeaderState6 | headerValueConnection3
  | invokeUpdateHeaderState7 | invokeTestFlags2 | headerValueContentLength | spanEndOnHeaderValue6
  | error54 | headerValueContentLengthWs | invokeOrFlags17 | spanEndOnHeaderValue7 | error55
  | error53 | invokeTestFlags3 | invokeLoadType2 | invokeTestLenientFlags20 | spanEndOnHeaderValue9
  | error57 | invokeOrFlags18 | invokeAndFlags | headerValueTeChunked | headerValueTeChunkedLast
  | invokeUpdateHeaderState8 | invokeLoadType1 | invokeTestLenientFlags19 | spanEndOnHeaderValue8
  | error56 | headerValueTeToken | headerValueTeTokenOws | invokeUpdateHeaderState9 | headerValue
  | invokeOrFlags20 | invokeTestFlags5 | invokeTestLenientFlags22 | error59
  -- the end of the head and of the message
  | invokeOnMessageComplete2 | invokeIsEqualUpgrade | invokeAfterMessageComplete
  | invokeUpdateContentLength | invokeUpdateInitialMessageCompleted | invokeUpdateFinish2
  | invokeUpdateFinish1 | invokeTestLenientFlags2 | closed | invokeTestLenientFlags3 | error8
  | pause1 | invokeBeforeHeadersComplete1 | invokeOnHeadersComplete1 | invokeAfterHeadersComplete
  | invokeOnMessageComplete1 | spanStartOnBody1 | consumeContentLength1 | spanEndOnBody1
  | invokeUpdateFinish3 | spanStartOnBody2 | eof | error39 | invokeOnMessageComplete
  -- chunks
  | invokeOnChunkComplete2 | invokeUpdateContentLength1 | chunkSizeDigit | error36 | chunkSize
  | chunkSizeOtherwise | invokeTestLenientFlags4 | error10 | invokeTestLenientFlags5 | error11
  | chunkSizeAlmostDone | invokeOnChunkHeader | invokeIsEqualContentLength | spanStartOnBody
  | consumeContentLength | spanEndOnBody | chunkDataAlmostDone | invokeTestLenientFlags6 | error13
  | chunkDataAlmostDone1 | invokeOnChunkComplete | invokeTestLenientFlags7 | error15 | invokeOrFlags
  | invokeTestLenientFlags8 | error16 | chunkExtensions | error17 | error18
  | spanStartOnChunkExtensionName | chunkExtensionName | spanEndOnChunkExtensionName
  | invokeOnChunkExtensionNameComplete | invokeTestLenientFlags9 | error20
  | spanEndOnChunkExtensionName1 | invokeOnChunkExtensionNameComplete1
  | spanEndOnChunkExtensionName2 | invokeOnChunkExtensionNameComplete2
  | spanEndOnChunkExtensionName3 | spanStartOnChunkExtensionValue
  | invokeOnChunkExtensionNameComplete3 | chunkExtensionValue | spanEndOnChunkExtensionValue
  | invokeOnChunkExtensionValueComplete | invokeTestLenientFlags10 | error25
  | spanEndOnChunkExtensionValue1 | invokeOnChunkExtensionValueComplete1 | chunkExtensionQuotedValue
  | spanEndOnChunkExtensionValue2 | invokeOnChunkExtensionValueComplete2
  | chunkExtensionQuotedValueDone | invokeTestLenientFlags11 | error28 | error29
  | chunkExtensionQuotedValueQuotedPair | spanEndOnChunkExtensionValue3 | error30
  | spanEndOnChunkExtensionValue4 | error31 | spanEndOnChunkExtensionValue5
  | invokeOnChunkExtensionValueComplete3 | spanEndOnChunkExtensionValue6 | error33
  | spanEndOnChunkExtensionName4 | error34 | error35 | error37
  deriving DecidableEq

/-! ## Edges and sets of bytes

`eat` takes the byte and `peek` leaves it. The sets are those of the lookup tables, which map 256
bytes to a few cases; as ranges they can be compared with the source by eye. -/

def eat (target : Label) : Edge Label := ⟨true, target⟩

def peek (target : Label) : Edge Label := ⟨false, target⟩

def chars (cs : List Char) : ByteSet := cs.map fun c => (c.toUInt8, c.toUInt8)

def word (cs : List Char) : Bytes := cs.map Char.toUInt8

/-- The digits, which enter a node with their value. -/
def digits (cs : List Char) (value : Nat) (target : Nat → Label) : List (ByteSet × Edge Label) :=
  cs.zipIdx.map fun c => (chars [c.1], eat (target (value + c.2)))

def decimal (target : Nat → Label) : List (ByteSet × Edge Label) :=
  digits ['0', '1', '2', '3', '4', '5', '6', '7', '8', '9'] 0 target

def hexadecimal (target : Nat → Label) : List (ByteSet × Edge Label) :=
  decimal target ++ digits ['A', 'B', 'C', 'D', 'E', 'F'] 10 target
    ++ digits ['a', 'b', 'c', 'd', 'e', 'f'] 10 target

/-- The same target for several results. -/
def anyOf (codes : List Nat) (target : Label) : List (Nat × Label) := codes.map fun c => (c, target)

/-- `(*p) >= 'A' && (*p) <= 'Z' ? (*p | 0x20) : (*p)` -/
def toLower (b : UInt8) : UInt8 := if 65 ≤ b ∧ b ≤ 90 then b ||| 32 else b

/-- `(*p) | 0x20` -/
def toLowerUnsafe (b : UInt8) : UInt8 := b ||| 32

/-- The bytes of a name of a header or of a chunk extension. -/
def tokenBytes : ByteSet :=
  [(33, 33), (35, 39), (42, 43), (45, 46), (48, 57), (65, 90), (94, 122), (124, 124), (126, 126)]

/-- The bytes of a value. -/
def valueBytes : ByteSet := [(9, 9), (32, 126), (128, 255)]

/-- The bytes of an element of a list of values. -/
def listBytes : ByteSet := [(9, 9), (32, 43), (45, 126), (128, 255)]

def letters : ByteSet := [(65, 90), (97, 122)]

def fragmentBytes : ByteSet := [(33, 126)]

def queryBytes : ByteSet := [(33, 34), (36, 126)]

def pathBytes : ByteSet := [(33, 34), (36, 62), (64, 126)]

def serverBytes : ByteSet :=
  [(33, 33), (36, 46), (48, 59), (61, 61), (65, 91), (93, 93), (95, 95), (97, 122), (126, 126)]

def quotedBytes : ByteSet := [(9, 9), (32, 33), (35, 91), (93, 255)]

/-! ## Nodes

The function is a transcription: for each `case` of the big `switch` of `llhttp__internal__run`,
what the case does with the next byte and where it goes. -/

def node : Label → Node Label Internal Span Report
  -- the beginning of a message
  | .start =>
      .switch id [(chars ['\n', '\r'], eat .start)] (peek .invokeLoadInitialMessageCompleted)
  | .invokeLoadInitialMessageCompleted =>
      .invoke loadInitialMessageCompleted [(1, .invokeOnReset)] .invokeUpdateFinish
  | .invokeOnReset => .report .reset .invokeUpdateFinish
  | .invokeUpdateFinish => .invoke updateFinish [] .invokeOnMessageBegin
  | .invokeOnMessageBegin => .report .messageBegin .invokeLoadType
  | .invokeLoadType => .invoke loadType [] .spanStartOnMethod1
  -- the method
  | .spanStartOnMethod1 => .spanStart .method .afterStartReq
  | .afterStartReq =>
      .switch id [(chars ['A'], eat .afterStartReq1), (chars ['B'], eat .afterStartReq4),
          (chars ['C'], eat .afterStartReq5), (chars ['D'], eat .afterStartReq10),
          (chars ['F'], eat .afterStartReq14), (chars ['G'], eat .afterStartReq15),
          (chars ['H'], eat .afterStartReq18), (chars ['L'], eat .afterStartReq19),
          (chars ['M'], eat .afterStartReq22), (chars ['N'], eat .afterStartReq31),
          (chars ['O'], eat .afterStartReq32), (chars ['P'], eat .afterStartReq33),
          (chars ['R'], eat .afterStartReq46), (chars ['S'], eat .afterStartReq52),
          (chars ['T'], eat .afterStartReq60), (chars ['U'], eat .afterStartReq63)] (peek .error106)
  | .afterStartReq1 =>
      .switch id [(chars ['C'], eat .afterStartReq2), (chars ['N'], eat .afterStartReq3)]
          (peek .error106)
  | .afterStartReq2 => .switch id [(chars ['L'], eat (.invokeStoreMethod1 19))] (peek .error106)
  | .invokeStoreMethod1 m => .invoke (storeMethod m) [] .spanEndOnMethod2
  | .spanEndOnMethod2 => .spanEnd .method false .invokeOnMethodComplete1
  | .invokeOnMethodComplete1 => .report .methodComplete .reqFirstSpaceBeforeUrl
  | .error106 => .error 6 "Invalid method encountered" none
  | .afterStartReq3 =>
      .sequence id (word ['N', 'O', 'U', 'N', 'C', 'E']) (.invokeStoreMethod1 36) .error106
  | .afterStartReq4 => .sequence id (word ['I', 'N', 'D']) (.invokeStoreMethod1 16) .error106
  | .afterStartReq5 =>
      .switch id [(chars ['H'], eat .afterStartReq6), (chars ['O'], eat .afterStartReq7)]
          (peek .error106)
  | .afterStartReq6 =>
      .sequence id (word ['E', 'C', 'K', 'O', 'U', 'T']) (.invokeStoreMethod1 22) .error106
  | .afterStartReq7 =>
      .switch id [(chars ['N'], eat .afterStartReq8), (chars ['P'], eat .afterStartReq9)]
          (peek .error106)
  | .afterStartReq8 => .sequence id (word ['N', 'E', 'C', 'T']) (.invokeStoreMethod1 5) .error106
  | .afterStartReq9 => .switch id [(chars ['Y'], eat (.invokeStoreMethod1 8))] (peek .error106)
  | .afterStartReq10 => .switch id [(chars ['E'], eat .afterStartReq11)] (peek .error106)
  | .afterStartReq11 =>
      .switch id [(chars ['L'], eat .afterStartReq12), (chars ['S'], eat .afterStartReq13)]
          (peek .error106)
  | .afterStartReq12 => .sequence id (word ['E', 'T', 'E']) (.invokeStoreMethod1 0) .error106
  | .afterStartReq13 =>
      .sequence id (word ['C', 'R', 'I', 'B', 'E']) (.invokeStoreMethod1 35) .error106
  | .afterStartReq14 => .sequence id (word ['L', 'U', 'S', 'H']) (.invokeStoreMethod1 45) .error106
  | .afterStartReq15 => .sequence id (word ['E', 'T']) .afterStartReq16 .error106
  | .afterStartReq16 =>
      .switch id [(chars ['_'], eat .afterStartReq17)] (peek (.invokeStoreMethod1 1))
  | .afterStartReq17 =>
      .sequence id (word ['P', 'A', 'R', 'A', 'M', 'E', 'T', 'E', 'R']) (.invokeStoreMethod1 41)
          .error106
  | .afterStartReq18 => .sequence id (word ['E', 'A', 'D']) (.invokeStoreMethod1 2) .error106
  | .afterStartReq19 =>
      .switch id [(chars ['I'], eat .afterStartReq20), (chars ['O'], eat .afterStartReq21)]
          (peek .error106)
  | .afterStartReq20 => .sequence id (word ['N', 'K']) (.invokeStoreMethod1 31) .error106
  | .afterStartReq21 => .sequence id (word ['C', 'K']) (.invokeStoreMethod1 9) .error106
  | .afterStartReq22 =>
      .switch id [(chars ['-'], eat .afterStartReq23), (chars ['E'], eat .afterStartReq24),
          (chars ['K'], eat .afterStartReq25), (chars ['O'], eat .afterStartReq30)] (peek .error106)
  | .afterStartReq23 =>
      .sequence id (word ['S', 'E', 'A', 'R', 'C', 'H']) (.invokeStoreMethod1 24) .error106
  | .afterStartReq24 => .sequence id (word ['R', 'G', 'E']) (.invokeStoreMethod1 23) .error106
  | .afterStartReq25 =>
      .switch id [(chars ['A'], eat .afterStartReq26), (chars ['C'], eat .afterStartReq27)]
          (peek .error106)
  | .afterStartReq26 =>
      .sequence id (word ['C', 'T', 'I', 'V', 'I', 'T', 'Y']) (.invokeStoreMethod1 21) .error106
  | .afterStartReq27 =>
      .switch id [(chars ['A'], eat .afterStartReq28), (chars ['O'], eat .afterStartReq29)]
          (peek .error106)
  | .afterStartReq28 =>
      .sequence id (word ['L', 'E', 'N', 'D', 'A', 'R']) (.invokeStoreMethod1 30) .error106
  | .afterStartReq29 => .switch id [(chars ['L'], eat (.invokeStoreMethod1 10))] (peek .error106)
  | .afterStartReq30 => .sequence id (word ['V', 'E']) (.invokeStoreMethod1 11) .error106
  | .afterStartReq31 =>
      .sequence id (word ['O', 'T', 'I', 'F', 'Y']) (.invokeStoreMethod1 25) .error106
  | .afterStartReq32 =>
      .sequence id (word ['P', 'T', 'I', 'O', 'N', 'S']) (.invokeStoreMethod1 6) .error106
  | .afterStartReq33 =>
      .switch id [(chars ['A'], eat .afterStartReq34), (chars ['L'], eat .afterStartReq37),
          (chars ['O'], eat .afterStartReq38), (chars ['R'], eat .afterStartReq39),
          (chars ['U'], eat .afterStartReq44)] (peek .error106)
  | .afterStartReq34 =>
      .switch id [(chars ['T'], eat .afterStartReq35), (chars ['U'], eat .afterStartReq36)]
          (peek .error106)
  | .afterStartReq35 => .sequence id (word ['C', 'H']) (.invokeStoreMethod1 28) .error106
  | .afterStartReq36 => .sequence id (word ['S', 'E']) (.invokeStoreMethod1 39) .error106
  | .afterStartReq37 => .sequence id (word ['A', 'Y']) (.invokeStoreMethod1 38) .error106
  | .afterStartReq38 => .sequence id (word ['S', 'T']) (.invokeStoreMethod1 3) .error106
  | .afterStartReq39 =>
      .switch id [(chars ['I'], eat (.invokeStoreMethod1 34)), (chars ['O'], eat .afterStartReq40)]
          (peek .error106)
  | .afterStartReq40 => .switch id [(chars ['P'], eat .afterStartReq41)] (peek .error106)
  | .afterStartReq41 =>
      .switch id [(chars ['F'], eat .afterStartReq42), (chars ['P'], eat .afterStartReq43)]
          (peek .error106)
  | .afterStartReq42 => .sequence id (word ['I', 'N', 'D']) (.invokeStoreMethod1 12) .error106
  | .afterStartReq43 => .sequence id (word ['A', 'T', 'C', 'H']) (.invokeStoreMethod1 13) .error106
  | .afterStartReq44 =>
      .switch id [(chars ['R'], eat .afterStartReq45), (chars ['T'], eat (.invokeStoreMethod1 4))]
          (peek .error106)
  | .afterStartReq45 => .sequence id (word ['G', 'E']) (.invokeStoreMethod1 29) .error106
  | .afterStartReq46 => .switch id [(chars ['E'], eat .afterStartReq47)] (peek .error106)
  | .afterStartReq47 =>
      .switch id [(chars ['B'], eat .afterStartReq48), (chars ['C'], eat .afterStartReq49),
          (chars ['D'], eat .afterStartReq50), (chars ['P'], eat .afterStartReq51)] (peek .error106)
  | .afterStartReq48 => .sequence id (word ['I', 'N', 'D']) (.invokeStoreMethod1 17) .error106
  | .afterStartReq49 => .sequence id (word ['O', 'R', 'D']) (.invokeStoreMethod1 44) .error106
  | .afterStartReq50 =>
      .sequence id (word ['I', 'R', 'E', 'C', 'T']) (.invokeStoreMethod1 43) .error106
  | .afterStartReq51 => .sequence id (word ['O', 'R', 'T']) (.invokeStoreMethod1 20) .error106
  | .afterStartReq52 =>
      .switch id [(chars ['E'], eat .afterStartReq53), (chars ['O'], eat .afterStartReq58),
          (chars ['U'], eat .afterStartReq59)] (peek .error106)
  | .afterStartReq53 =>
      .switch id [(chars ['A'], eat .afterStartReq54), (chars ['T'], eat .afterStartReq55)]
          (peek .error106)
  | .afterStartReq54 => .sequence id (word ['R', 'C', 'H']) (.invokeStoreMethod1 14) .error106
  | .afterStartReq55 =>
      .switch id [(chars ['U'], eat .afterStartReq56), (chars ['_'], eat .afterStartReq57)]
          (peek .error106)
  | .afterStartReq56 => .switch id [(chars ['P'], eat (.invokeStoreMethod1 37))] (peek .error106)
  | .afterStartReq57 =>
      .sequence id (word ['P', 'A', 'R', 'A', 'M', 'E', 'T', 'E', 'R']) (.invokeStoreMethod1 42)
          .error106
  | .afterStartReq58 => .sequence id (word ['U', 'R', 'C', 'E']) (.invokeStoreMethod1 33) .error106
  | .afterStartReq59 =>
      .sequence id (word ['B', 'S', 'C', 'R', 'I', 'B', 'E']) (.invokeStoreMethod1 26) .error106
  | .afterStartReq60 =>
      .switch id [(chars ['E'], eat .afterStartReq61), (chars ['R'], eat .afterStartReq62)]
          (peek .error106)
  | .afterStartReq61 =>
      .sequence id (word ['A', 'R', 'D', 'O', 'W', 'N']) (.invokeStoreMethod1 40) .error106
  | .afterStartReq62 => .sequence id (word ['A', 'C', 'E']) (.invokeStoreMethod1 7) .error106
  | .afterStartReq63 => .switch id [(chars ['N'], eat .afterStartReq64)] (peek .error106)
  | .afterStartReq64 =>
      .switch id [(chars ['B'], eat .afterStartReq65), (chars ['L'], eat .afterStartReq66),
          (chars ['S'], eat .afterStartReq69)] (peek .error106)
  | .afterStartReq65 => .sequence id (word ['I', 'N', 'D']) (.invokeStoreMethod1 18) .error106
  | .afterStartReq66 =>
      .switch id [(chars ['I'], eat .afterStartReq67), (chars ['O'], eat .afterStartReq68)]
          (peek .error106)
  | .afterStartReq67 => .sequence id (word ['N', 'K']) (.invokeStoreMethod1 32) .error106
  | .afterStartReq68 => .sequence id (word ['C', 'K']) (.invokeStoreMethod1 15) .error106
  | .afterStartReq69 =>
      .sequence id (word ['U', 'B', 'S', 'C', 'R', 'I', 'B', 'E']) (.invokeStoreMethod1 27)
          .error106
  -- the URL
  | .reqFirstSpaceBeforeUrl => .switch id [(chars [' '], eat .reqSpacesBeforeUrl)] (peek .error86)
  | .reqSpacesBeforeUrl =>
      .switch id [(chars [' '], eat .reqSpacesBeforeUrl)] (peek .invokeIsEqualMethod)
  | .invokeIsEqualMethod => .invoke isEqualMethod [(0, .urlEntryNormal)] .urlEntryConnect
  | .urlEntryNormal => .switch id [(chars ['\t', '\x0c'], eat .error2)] (peek .spanStartOnUrl1)
  | .error2 => .error 7 "Invalid characters in url" none
  | .spanStartOnUrl1 => .spanStart .url .urlStart
  | .urlStart =>
      .switch id [(chars ['\t', '\n', '\x0c', '\r', ' '], eat .error2),
          (chars ['*', '/'], peek .spanStartStubPath2), (letters, peek .urlSchema)] (peek .error85)
  | .spanStartStubPath2 => .switch id [] (eat .urlPath)
  | .urlPath =>
      .switch id [(chars ['\t', '\x0c'], eat .error2), (pathBytes, eat .urlPath)]
          (peek .urlQueryOrFragment)
  | .urlQueryOrFragment =>
      .switch id [(chars ['\t', '\x0c'], eat .error2), (chars ['\n'], peek .spanEndOnUrl3),
          (chars ['\r'], peek .spanEndOnUrl4), (chars [' '], peek .spanEndOnUrl5),
          (chars ['#'], eat .urlFragment), (chars ['?'], eat .urlQuery)] (peek .error79)
  | .spanEndOnUrl3 => .spanEnd .url false .urlSkipToHttp09
  | .urlSkipToHttp09 => .switch id [(chars ['\t', '\x0c'], eat .error2)] (eat .urlToHttp09)
  | .urlToHttp09 => .switch id [(chars ['\t', '\x0c'], eat .error2)] (peek .invokeUpdateHttpMajor)
  | .invokeUpdateHttpMajor => .invoke updateHttpMajor [] .invokeUpdateHttpMinor
  | .invokeUpdateHttpMinor => .invoke updateHttpMinor [] .invokeOnUrlComplete
  | .invokeOnUrlComplete => .report .urlComplete .headersStart
  | .spanEndOnUrl4 => .spanEnd .url false .urlSkipLfToHttp09
  | .urlSkipLfToHttp09 =>
      .switch id [(chars ['\t', '\x0c'], eat .error2), (chars ['\r'], eat .urlSkipLfToHttp091)]
          (peek .error61)
  | .urlSkipLfToHttp091 => .switch id [(chars ['\n'], eat .urlToHttp09)] (peek .error61)
  | .error61 => .error 7 "Expected CRLF" none
  | .spanEndOnUrl5 => .spanEnd .url false .urlSkipToHttp
  | .urlSkipToHttp => .switch id [(chars ['\t', '\x0c'], eat .error2)] (eat .urlToHttp)
  | .urlToHttp => .switch id [(chars ['\t', '\x0c'], eat .error2)] (peek .invokeOnUrlComplete1)
  | .invokeOnUrlComplete1 => .report .urlComplete .reqHttpStart
  | .urlFragment =>
      .switch id [(chars ['\t', '\x0c'], eat .error2), (chars ['\n'], peek .spanEndOnUrl6),
          (chars ['\r'], peek .spanEndOnUrl7), (chars [' '], peek .spanEndOnUrl8),
          (fragmentBytes, eat .urlFragment)] (peek .error77)
  | .spanEndOnUrl6 => .spanEnd .url false .urlSkipToHttp09
  | .spanEndOnUrl7 => .spanEnd .url false .urlSkipLfToHttp09
  | .spanEndOnUrl8 => .spanEnd .url false .urlSkipToHttp
  | .error77 => .error 7 "Invalid char in url fragment start" none
  | .urlQuery =>
      .switch id [(chars ['\t', '\x0c'], eat .error2), (chars ['\n'], peek .spanEndOnUrl9),
          (chars ['\r'], peek .spanEndOnUrl10), (chars [' '], peek .spanEndOnUrl11),
          (queryBytes, eat .urlQuery), (chars ['#'], peek .spanEndStubQuery3)] (peek .error78)
  | .spanEndOnUrl9 => .spanEnd .url false .urlSkipToHttp09
  | .spanEndOnUrl10 => .spanEnd .url false .urlSkipLfToHttp09
  | .spanEndOnUrl11 => .spanEnd .url false .urlSkipToHttp
  | .spanEndStubQuery3 => .switch id [] (eat .urlFragment)
  | .error78 => .error 7 "Invalid char in url query" none
  | .error79 => .error 7 "Invalid char in url path" none
  | .urlSchema =>
      .switch id [(chars ['\t', '\n', '\x0c', '\r', ' '], eat .error2),
          (chars [':'], peek .spanEndStubSchema), (letters, eat .urlSchema)] (peek .error84)
  | .spanEndStubSchema => .switch id [] (eat .urlSchemaDelim)
  | .urlSchemaDelim =>
      .switch id [(chars ['\t', '\n', '\x0c', '\r', ' '], eat .error2),
          (chars ['/'], eat .urlSchemaDelim1)] (peek .error83)
  | .urlSchemaDelim1 => .switch id [(chars ['/'], eat .urlServer)] (peek .error83)
  | .urlServer =>
      .switch id [(chars ['\t', '\x0c'], eat .error2), (chars ['\n'], peek .spanEndOnUrl),
          (chars ['\r'], peek .spanEndOnUrl1), (chars [' '], peek .spanEndOnUrl2),
          (serverBytes, eat .urlServer), (chars ['/'], peek .spanStartStubPath),
          (chars ['?'], eat .urlQuery), (chars ['@'], eat .urlServerWithAt)] (peek .error82)
  | .spanEndOnUrl => .spanEnd .url false .urlSkipToHttp09
  | .spanEndOnUrl1 => .spanEnd .url false .urlSkipLfToHttp09
  | .spanEndOnUrl2 => .spanEnd .url false .urlSkipToHttp
  | .spanStartStubPath => .switch id [] (eat .urlPath)
  | .urlServerWithAt =>
      .switch id [(chars ['\t', '\x0c'], eat .error2), (chars ['\n'], peek .spanEndOnUrl12),
          (chars ['\r'], peek .spanEndOnUrl13), (chars [' '], peek .spanEndOnUrl14),
          (serverBytes, eat .urlServer), (chars ['/'], peek .spanStartStubPath1),
          (chars ['?'], eat .urlQuery), (chars ['@'], eat .error80)] (peek .error81)
  | .spanEndOnUrl12 => .spanEnd .url false .urlSkipToHttp09
  | .spanEndOnUrl13 => .spanEnd .url false .urlSkipLfToHttp09
  | .spanEndOnUrl14 => .spanEnd .url false .urlSkipToHttp
  | .spanStartStubPath1 => .switch id [] (eat .urlPath)
  | .error80 => .error 7 "Double @ in url" none
  | .error81 => .error 7 "Unexpected char in url server" none
  | .error82 => .error 7 "Unexpected char in url server" none
  | .error83 => .error 7 "Unexpected char in url schema" none
  | .error84 => .error 7 "Unexpected char in url schema" none
  | .error85 => .error 7 "Unexpected start char in url" none
  | .urlEntryConnect => .switch id [(chars ['\t', '\x0c'], eat .error2)] (peek .spanStartOnUrl)
  | .spanStartOnUrl => .spanStart .url .urlServer
  | .error86 => .error 6 "Expected space after method" none
  -- the version
  | .reqHttpStart =>
      .switch id [(chars [' '], eat .reqHttpStart), (chars ['H'], eat .reqHttpStart1),
          (chars ['I'], eat .reqHttpStart2), (chars ['R'], eat .reqHttpStart3)] (peek .error76)
  | .reqHttpStart1 => .sequence id (word ['T', 'T', 'P', '/']) .invokeLoadMethod .error76
  | .invokeLoadMethod =>
      .invoke loadMethod
          (anyOf [0, 1, 2, 3, 4, 5, 6, 7, 8, 9, 10, 11, 12, 13, 14, 15, 16, 17, 18, 19, 20, 21, 22,
          23, 24, 25, 26, 27, 28, 29, 30, 31, 32, 33, 34] .spanStartOnVersion) .error63
  | .spanStartOnVersion => .spanStart .version .reqHttpMajor
  | .reqHttpMajor => .switch id (decimal .invokeStoreHttpMajor) (peek .spanEndOnVersion4)
  | .invokeStoreHttpMajor m => .invoke (storeHttpMajor m) [] .reqHttpDot
  | .reqHttpDot => .switch id [(chars ['.'], eat .reqHttpMinor)] (peek .spanEndOnVersion3)
  | .reqHttpMinor => .switch id (decimal .invokeStoreHttpMinor) (peek .spanEndOnVersion2)
  | .invokeStoreHttpMinor m => .invoke (storeHttpMinor m) [] .invokeTestLenientFlags23
  | .invokeTestLenientFlags23 => .invoke testLenientFlags [] .invokeLoadHttpMajor
  | .invokeLoadHttpMajor =>
      .invoke loadHttpMajor [(0, .invokeLoadHttpMinor), (1, .invokeLoadHttpMinor1),
          (2, .invokeLoadHttpMinor2)] .spanEndOnVersion
  | .invokeLoadHttpMinor => .invoke loadHttpMinor [(9, .spanEndOnVersion1)] .spanEndOnVersion
  | .spanEndOnVersion1 => .spanEnd .version false .invokeOnVersionComplete
  | .invokeOnVersionComplete => .report .versionComplete .invokeLoadMethod1
  | .invokeLoadMethod1 => .invoke loadMethod [(34, .reqPriUpgrade)] .reqHttpComplete
  | .reqPriUpgrade =>
      .sequence id (word ['\r', '\n', '\r', '\n', 'S', 'M', '\r', '\n', '\r', '\n']) .error69
          .error70
  | .error69 => .error 23 "Pause on PRI/Upgrade" none
  | .error70 => .error 9 "Expected HTTP/2 Connection Preface" none
  | .reqHttpComplete =>
      .switch id [(chars ['\n'], eat .invokeTestLenientFlags24),
          (chars ['\r'], eat .reqHttpCompleteCrlf)] (peek .error68)
  | .invokeTestLenientFlags24 => .invoke testLenientFlags [] .error66
  | .error66 => .error 9 "Expected CRLF after version" none
  | .reqHttpCompleteCrlf =>
      .switch id [(chars ['\n'], eat .headersStart)] (peek .invokeTestLenientFlags25)
  | .invokeTestLenientFlags25 => .invoke testLenientFlags [] .error67
  | .error67 => .error 2 "Expected CRLF after version" none
  | .error68 => .error 9 "Expected CRLF after version" none
  | .spanEndOnVersion => .spanEnd .version false .error64
  | .error64 => .error 9 "Invalid HTTP version" none
  | .invokeLoadHttpMinor1 =>
      .invoke loadHttpMinor [(0, .spanEndOnVersion1), (1, .spanEndOnVersion1)] .spanEndOnVersion
  | .invokeLoadHttpMinor2 => .invoke loadHttpMinor [(0, .spanEndOnVersion1)] .spanEndOnVersion
  | .spanEndOnVersion2 => .spanEnd .version false .error71
  | .error71 => .error 9 "Invalid minor version" none
  | .spanEndOnVersion3 => .spanEnd .version false .error72
  | .error72 => .error 9 "Expected dot" none
  | .spanEndOnVersion4 => .spanEnd .version false .error73
  | .error73 => .error 9 "Invalid major version" none
  | .error63 => .error 8 "Invalid method for HTTP/x.x request" none
  | .error76 => .error 8 "Expected HTTP/" none
  | .reqHttpStart2 => .sequence id (word ['C', 'E', '/']) .invokeLoadMethod2 .error76
  | .invokeLoadMethod2 => .invoke loadMethod [(33, .spanStartOnVersion)] .error74
  | .error74 => .error 8 "Expected SOURCE method for ICE/x.x request" none
  | .reqHttpStart3 => .sequence id (word ['T', 'S', 'P', '/']) .invokeLoadMethod3 .error76
  | .invokeLoadMethod3 =>
      .invoke loadMethod (anyOf [1, 3, 6, 35, 36, 37, 38, 39, 40, 41, 42, 43, 44, 45]
          .spanStartOnVersion) .error75
  | .error75 => .error 8 "Invalid method for RTSP/x.x request" none
  -- the names of headers
  | .headersStart =>
      .switch id [(chars [' '], eat .invokeTestLenientFlags)] (peek .headerFieldStart)
  | .invokeTestLenientFlags => .invoke testLenientFlags [] .error4
  | .error4 => .error 30 "Unexpected space after start line" none
  | .headerFieldStart =>
      .switch id [(chars ['\n'], eat .invokeTestLenientFlags1),
          (chars ['\r'], eat .headersAlmostDone)] (peek .spanStartOnHeaderField)
  | .invokeTestLenientFlags1 => .invoke testLenientFlags [] .error5
  | .error5 => .error 10 "Invalid header field char" none
  | .headersAlmostDone =>
      .switch id [(chars ['\n'], eat .invokeTestFlags1)] (peek .invokeTestLenientFlags12)
  | .invokeTestFlags1 =>
      .invoke testFlags [(1, .invokeOnChunkComplete2)] .invokeBeforeHeadersComplete1
  | .invokeTestLenientFlags12 => .invoke testLenientFlags [] .error43
  | .error43 => .error 2 "Expected LF after headers" none
  | .spanStartOnHeaderField => .spanStart .headerField .headerField
  | .headerField =>
      .switch toLower [(chars ['c'], eat .headerField1), (chars ['p'], eat .headerField5),
          (chars ['t'], eat .headerField6), (chars ['u'], eat .headerField7)]
          (peek .invokeUpdateHeaderState11)
  | .headerField1 => .sequence toLower (word ['o', 'n']) .headerField2 .invokeUpdateHeaderState11
  | .headerField2 =>
      .switch toLower [(chars ['n'], eat .headerField3), (chars ['t'], eat .headerField4)]
          (peek .invokeUpdateHeaderState11)
  | .headerField3 =>
      .sequence toLower (word ['e', 'c', 't', 'i', 'o', 'n']) (.invokeStoreHeaderState 1)
          .invokeUpdateHeaderState11
  | .invokeStoreHeaderState m => .invoke (storeHeaderState m) [] .headerFieldColon
  | .headerFieldColon =>
      .switch id [(chars [' '], peek .invokeTestLenientFlags13),
          (chars [':'], peek .spanEndOnHeaderField1)] (peek .invokeUpdateHeaderState10)
  | .invokeTestLenientFlags13 => .invoke testLenientFlags [] .spanEndOnHeaderField
  | .spanEndOnHeaderField => .spanEnd .headerField true .error5
  | .spanEndOnHeaderField1 => .spanEnd .headerField true .invokeOnHeaderFieldComplete
  | .invokeOnHeaderFieldComplete => .report .headerFieldComplete .invokeLoadHeaderState
  | .invokeUpdateHeaderState10 => .invoke updateHeaderState1 [] .headerFieldGeneral
  | .headerFieldGeneral =>
      .switch id [(tokenBytes, eat .headerFieldGeneral)] (peek .headerFieldGeneralOtherwise)
  | .headerFieldGeneralOtherwise =>
      .switch id [(chars [':'], peek .spanEndOnHeaderField2)] (peek .error60)
  | .spanEndOnHeaderField2 => .spanEnd .headerField true .invokeOnHeaderFieldComplete
  | .error60 => .error 10 "Invalid header token" none
  | .invokeUpdateHeaderState11 => .invoke updateHeaderState1 [] .headerFieldGeneral
  | .headerField4 =>
      .sequence toLower (word ['e', 'n', 't', '-', 'l', 'e', 'n', 'g', 't', 'h'])
          (.invokeStoreHeaderState 2) .invokeUpdateHeaderState11
  | .headerField5 =>
      .sequence toLower
          (word ['r', 'o', 'x', 'y', '-', 'c', 'o', 'n', 'n', 'e', 'c', 't', 'i', 'o', 'n'])
          (.invokeStoreHeaderState 1) .invokeUpdateHeaderState11
  | .headerField6 =>
      .sequence toLower
          (word ['r', 'a', 'n', 's', 'f', 'e', 'r', '-', 'e', 'n', 'c', 'o', 'd', 'i', 'n', 'g'])
          (.invokeStoreHeaderState 3) .invokeUpdateHeaderState11
  | .headerField7 =>
      .sequence toLower (word ['p', 'g', 'r', 'a', 'd', 'e']) (.invokeStoreHeaderState 4)
          .invokeUpdateHeaderState11
  -- the values of headers
  | .invokeLoadHeaderState =>
      .invoke loadHeaderState [(2, .invokeTestFlags4), (3, .invokeTestFlags5)] .headerValueDiscardWs
  | .invokeTestFlags4 => .invoke testFlags4 [(1, .invokeTestLenientFlags21)] .headerValueDiscardWs
  | .invokeTestLenientFlags21 => .invoke testLenientFlags [] .error58
  | .error58 => .error 11 "Content-Length can't be present with Transfer-Encoding" none
  | .headerValueDiscardWs =>
      .switch id [(chars ['\t', ' '], eat .headerValueDiscardWs),
          (chars ['\n'], eat .invokeTestLenientFlags14),
          (chars ['\r'], eat .headerValueDiscardWsAlmostDone)] (peek .spanStartOnHeaderValue1)
  | .invokeTestLenientFlags14 => .invoke testLenientFlags [] .error45
  | .error45 => .error 10 "Invalid header value char" none
  | .headerValueDiscardWsAlmostDone =>
      .switch id [(chars ['\n'], eat .headerValueDiscardLws)] (peek .invokeTestLenientFlags16)
  | .headerValueDiscardLws =>
      .switch id [(chars ['\t', ' '], eat .invokeTestLenientFlags15)] (peek .invokeLoadHeaderState1)
  | .invokeTestLenientFlags15 => .invoke testLenientFlags [] .error46
  | .error46 => .error 10 "Invalid header value char" none
  | .invokeLoadHeaderState1 => .invoke loadHeaderState [(2, .error48)] .invokeLoadHeaderState2
  | .error48 => .error 11 "Empty Content-Length" none
  | .invokeLoadHeaderState2 =>
      .invoke loadHeaderState [(5, .invokeOrFlags5), (6, .invokeOrFlags6), (7, .invokeOrFlags7),
          (8, .invokeOrFlags8)] .spanStartOnHeaderValue
  | .invokeOrFlags5 => .invoke orFlags5 [] .invokeUpdateHeaderState
  | .invokeUpdateHeaderState => .invoke updateHeaderState [] .spanStartOnHeaderValue
  | .spanStartOnHeaderValue => .spanStart .headerValue .spanEndOnHeaderValue
  | .spanEndOnHeaderValue => .spanEnd .headerValue false .invokeOnHeaderValueComplete
  | .invokeOnHeaderValueComplete => .report .headerValueComplete .headerFieldStart
  | .invokeOrFlags6 => .invoke orFlags6 [] .invokeUpdateHeaderState
  | .invokeOrFlags7 => .invoke orFlags7 [] .invokeUpdateHeaderState
  | .invokeOrFlags8 => .invoke orFlags8 [] .spanStartOnHeaderValue
  | .invokeTestLenientFlags16 => .invoke testLenientFlags [] .error49
  | .error49 => .error 2 "Expected LF after CR" none
  | .spanStartOnHeaderValue1 => .spanStart .headerValue .invokeLoadHeaderState3
  | .invokeLoadHeaderState3 =>
      .invoke loadHeaderState [(1, .headerValueConnection), (2, .invokeTestFlags2),
          (3, .invokeTestFlags3), (4, .invokeOrFlags20)] .headerValue
  | .headerValueConnection =>
      .switch toLower [(chars ['\t', ' '], eat .headerValueConnection),
          (chars ['c'], eat .headerValueConnection1), (chars ['k'], eat .headerValueConnection2),
          (chars ['u'], eat .headerValueConnection3)] (peek .headerValueConnectionToken)
  | .headerValueConnection1 =>
      .sequence toLower (word ['l', 'o', 's', 'e']) .invokeUpdateHeaderState3
          .headerValueConnectionToken
  | .invokeUpdateHeaderState3 => .invoke updateHeaderState3 [] .headerValueConnectionWs
  | .headerValueConnectionWs =>
      .switch id [(chars ['\n', '\r'], peek .headerValueOtherwise),
          (chars [' '], eat .headerValueConnectionWs), (chars [','], eat .invokeLoadHeaderState6)]
          (peek .invokeUpdateHeaderState5)
  | .headerValueOtherwise =>
      .switch id [(chars ['\n'], peek .spanEndOnHeaderValue1),
          (chars ['\r'], peek .spanEndOnHeaderValue2)] (peek .invokeTestLenientFlags18)
  | .spanEndOnHeaderValue1 => .spanEnd .headerValue false .invokeTestLenientFlags17
  | .invokeTestLenientFlags17 => .invoke testLenientFlags [] .error50
  | .error50 => .error 25 "Missing expected CR after header value" none
  | .spanEndOnHeaderValue2 => .spanEnd .headerValue true .headerValueAlmostDone
  | .headerValueAlmostDone => .switch id [(chars ['\n'], eat .headerValueLws)] (peek .error51)
  | .headerValueLws =>
      .switch id [(chars ['\t', ' '], peek .invokeLoadHeaderState4)] (peek .invokeLoadHeaderState5)
  | .invokeLoadHeaderState4 =>
      .invoke loadHeaderState [(8, .invokeUpdateHeaderState1)] .spanStartOnHeaderValue1
  | .invokeUpdateHeaderState1 => .invoke updateHeaderState1 [] .spanStartOnHeaderValue1
  | .invokeLoadHeaderState5 =>
      .invoke loadHeaderState [(5, .invokeOrFlags9), (6, .invokeOrFlags10), (7, .invokeOrFlags11),
          (8, .invokeOrFlags12)] .invokeOnHeaderValueComplete
  | .invokeOrFlags9 => .invoke orFlags5 [] .invokeUpdateHeaderState2
  | .invokeUpdateHeaderState2 => .invoke updateHeaderState [] .invokeOnHeaderValueComplete
  | .invokeOrFlags10 => .invoke orFlags6 [] .invokeUpdateHeaderState2
  | .invokeOrFlags11 => .invoke orFlags7 [] .invokeUpdateHeaderState2
  | .invokeOrFlags12 => .invoke orFlags8 [] .invokeOnHeaderValueComplete
  | .error51 => .error 3 "Missing expected LF after header value" none
  | .invokeTestLenientFlags18 => .invoke testLenientFlags [] .spanEndOnHeaderValue3
  | .spanEndOnHeaderValue3 => .spanEnd .headerValue false .error52
  | .error52 => .error 10 "Invalid header value char" none
  | .invokeLoadHeaderState6 =>
      .invoke loadHeaderState [(5, .invokeOrFlags13), (6, .invokeOrFlags14), (7, .invokeOrFlags15),
          (8, .invokeOrFlags16)] .headerValueConnection
  | .invokeOrFlags13 => .invoke orFlags5 [] .invokeUpdateHeaderState4
  | .invokeUpdateHeaderState4 => .invoke updateHeaderState [] .headerValueConnection
  | .invokeOrFlags14 => .invoke orFlags6 [] .invokeUpdateHeaderState4
  | .invokeOrFlags15 => .invoke orFlags7 [] .invokeUpdateHeaderState4
  | .invokeOrFlags16 => .invoke orFlags8 [] .headerValueConnection
  | .invokeUpdateHeaderState5 => .invoke updateHeaderState1 [] .headerValueConnectionToken
  | .headerValueConnectionToken =>
      .switch id [(listBytes, eat .headerValueConnectionToken),
          (chars [','], eat .headerValueConnection)] (peek .headerValueOtherwise)
  | .headerValueConnection2 =>
      .sequence toLower (word ['e', 'e', 'p', '-', 'a', 'l', 'i', 'v', 'e'])
          .invokeUpdateHeaderState6 .headerValueConnectionToken
  | .invokeUpdateHeaderState6 => .invoke updateHeaderState6 [] .headerValueConnectionWs
  | .headerValueConnection3 =>
      .sequence toLower (word ['p', 'g', 'r', 'a', 'd', 'e']) .invokeUpdateHeaderState7
          .headerValueConnectionToken
  | .invokeUpdateHeaderState7 => .invoke updateHeaderState7 [] .headerValueConnectionWs
  | .invokeTestFlags2 => .invoke testFlags2 [(0, .headerValueContentLength)] .error53
  | .headerValueContentLength =>
      .switch id (decimal .invokeMulAddContentLength1) (peek .headerValueContentLengthWs)
  | .invokeMulAddContentLength1 m =>
      .invoke (mulAddContentLength1 m) [(1, .spanEndOnHeaderValue6)] .headerValueContentLength
  | .spanEndOnHeaderValue6 => .spanEnd .headerValue false .error54
  | .error54 => .error 11 "Content-Length overflow" none
  | .headerValueContentLengthWs =>
      .switch id [(chars ['\n', '\r'], peek .invokeOrFlags17),
          (chars [' '], eat .headerValueContentLengthWs)] (peek .spanEndOnHeaderValue7)
  | .invokeOrFlags17 => .invoke orFlags17 [] .headerValueOtherwise
  | .spanEndOnHeaderValue7 => .spanEnd .headerValue false .error55
  | .error55 => .error 11 "Invalid character in Content-Length" none
  | .error53 => .error 4 "Duplicate Content-Length" none
  | .invokeTestFlags3 => .invoke testFlags3 [(1, .invokeLoadType2)] .invokeOrFlags18
  | .invokeLoadType2 => .invoke loadType [] .invokeTestLenientFlags20
  | .invokeTestLenientFlags20 => .invoke testLenientFlags [] .spanEndOnHeaderValue9
  | .spanEndOnHeaderValue9 => .spanEnd .headerValue true .error57
  | .error57 => .error 15 "Invalid `Transfer-Encoding` header value" none
  | .invokeOrFlags18 => .invoke orFlags18 [] .invokeAndFlags
  | .invokeAndFlags => .invoke andFlags [] .headerValueTeChunked
  | .headerValueTeChunked =>
      .sequence toLowerUnsafe (word ['c', 'h', 'u', 'n', 'k', 'e', 'd']) .headerValueTeChunkedLast
          .headerValueTeToken
  | .headerValueTeChunkedLast =>
      .switch id [(chars ['\n', '\r'], peek .invokeUpdateHeaderState8),
          (chars [' '], eat .headerValueTeChunkedLast), (chars [','], peek .invokeLoadType1)]
          (peek .headerValueTeToken)
  | .invokeUpdateHeaderState8 => .invoke updateHeaderState8 [] .headerValueOtherwise
  | .invokeLoadType1 => .invoke loadType [] .invokeTestLenientFlags19
  | .invokeTestLenientFlags19 => .invoke testLenientFlags [] .spanEndOnHeaderValue8
  | .spanEndOnHeaderValue8 => .spanEnd .headerValue true .error56
  | .error56 => .error 15 "Invalid `Transfer-Encoding` header value" none
  | .headerValueTeToken =>
      .switch id [(listBytes, eat .headerValueTeToken), (chars [','], eat .headerValueTeTokenOws)]
          (peek .invokeUpdateHeaderState9)
  | .headerValueTeTokenOws =>
      .switch id [(chars ['\t', ' '], eat .headerValueTeTokenOws)] (peek .headerValueTeChunked)
  | .invokeUpdateHeaderState9 => .invoke updateHeaderState1 [] .headerValue
  | .headerValue => .switch id [(valueBytes, eat .headerValue)] (peek .headerValueOtherwise)
  | .invokeOrFlags20 => .invoke orFlags20 [] .invokeUpdateHeaderState9
  | .invokeTestFlags5 => .invoke testFlags2 [(1, .invokeTestLenientFlags22)] .headerValueDiscardWs
  | .invokeTestLenientFlags22 => .invoke testLenientFlags [] .error59
  | .error59 => .error 15 "Transfer-Encoding can't be present with Content-Length" none
  -- the end of the head and of the message
  | .invokeOnMessageComplete2 => .report .messageComplete .invokeIsEqualUpgrade
  | .invokeIsEqualUpgrade => .invoke isEqualUpgrade [(0, .invokeAfterMessageComplete)] .pause1
  | .invokeAfterMessageComplete =>
      .invoke afterMessageComplete [(1, .invokeUpdateContentLength)] .invokeUpdateFinish1
  | .invokeUpdateContentLength =>
      .invoke updateContentLength [] .invokeUpdateInitialMessageCompleted
  | .invokeUpdateInitialMessageCompleted =>
      .invoke updateInitialMessageCompleted [] .invokeUpdateFinish2
  | .invokeUpdateFinish2 => .invoke updateFinish1 [] .start
  | .invokeUpdateFinish1 => .invoke updateFinish1 [] .invokeTestLenientFlags2
  | .invokeTestLenientFlags2 => .invoke testLenientFlags [] .closed
  | .closed => .switch id [(chars ['\n', '\r'], eat .closed)] (eat .invokeTestLenientFlags3)
  | .invokeTestLenientFlags3 => .invoke testLenientFlags [] .error8
  | .error8 => .error 5 "Data after `Connection: close`" none
  | .pause1 => .error 22 "Pause on CONNECT/Upgrade" (some .invokeAfterMessageComplete)
  | .invokeBeforeHeadersComplete1 => .invoke beforeHeadersComplete [] .invokeOnHeadersComplete1
  | .invokeOnHeadersComplete1 => .report .headersComplete .invokeAfterHeadersComplete
  | .invokeAfterHeadersComplete =>
      .invoke afterHeadersComplete [(1, .invokeOnMessageComplete1),
          (2, .invokeUpdateContentLength1), (3, .spanStartOnBody1), (4, .invokeUpdateFinish3),
          (5, .error39)] .invokeOnMessageComplete
  | .invokeOnMessageComplete1 => .report .messageComplete .pause1
  | .spanStartOnBody1 => .spanStart .body .consumeContentLength1
  | .consumeContentLength1 => .consume .spanEndOnBody1
  | .spanEndOnBody1 => .spanEnd .body false .invokeOnMessageComplete2
  | .invokeUpdateFinish3 => .invoke updateFinish3 [] .spanStartOnBody2
  | .spanStartOnBody2 => .spanStart .body .eof
  | .eof => .switch id [] (eat .eof)
  | .error39 => .error 15 "Request has invalid `Transfer-Encoding`" none
  | .invokeOnMessageComplete => .report .messageComplete .invokeAfterMessageComplete
  -- chunks
  | .invokeOnChunkComplete2 => .report .chunkComplete .invokeOnMessageComplete2
  | .invokeUpdateContentLength1 => .invoke updateContentLength [] .chunkSizeDigit
  | .chunkSizeDigit => .switch id (hexadecimal .invokeMulAddContentLength) (peek .error37)
  | .invokeMulAddContentLength m => .invoke (mulAddContentLength m) [(1, .error36)] .chunkSize
  | .error36 => .error 12 "Chunk size overflow" none
  | .chunkSize => .switch id (hexadecimal .invokeMulAddContentLength) (peek .chunkSizeOtherwise)
  | .chunkSizeOtherwise =>
      .switch id [(chars ['\t', ' '], eat .invokeTestLenientFlags4),
          (chars ['\n'], eat .invokeTestLenientFlags5), (chars ['\r'], eat .chunkSizeAlmostDone),
          (chars [';'], eat .chunkExtensions)] (peek .error35)
  | .invokeTestLenientFlags4 => .invoke testLenientFlags [] .error10
  | .error10 => .error 12 "Invalid character in chunk size" none
  | .invokeTestLenientFlags5 => .invoke testLenientFlags [] .error11
  | .error11 => .error 25 "Missing expected CR after chunk size" none
  | .chunkSizeAlmostDone =>
      .switch id [(chars ['\n'], eat .invokeOnChunkHeader)] (peek .invokeTestLenientFlags8)
  | .invokeOnChunkHeader => .report .chunkHeader .invokeIsEqualContentLength
  | .invokeIsEqualContentLength =>
      .invoke isEqualContentLength [(0, .spanStartOnBody)] .invokeOrFlags
  | .spanStartOnBody => .spanStart .body .consumeContentLength
  | .consumeContentLength => .consume .spanEndOnBody
  | .spanEndOnBody => .spanEnd .body false .chunkDataAlmostDone
  | .chunkDataAlmostDone =>
      .switch id [(chars ['\n'], eat .invokeTestLenientFlags6),
          (chars ['\r'], eat .chunkDataAlmostDone1)] (peek .invokeTestLenientFlags7)
  | .invokeTestLenientFlags6 => .invoke testLenientFlags [] .error13
  | .error13 => .error 25 "Missing expected CR after chunk data" none
  | .chunkDataAlmostDone1 =>
      .switch id [(chars ['\n'], eat .invokeOnChunkComplete)] (peek .invokeTestLenientFlags7)
  | .invokeOnChunkComplete => .report .chunkComplete .invokeUpdateContentLength1
  | .invokeTestLenientFlags7 => .invoke testLenientFlags [] .error15
  | .error15 => .error 2 "Expected LF after chunk data" none
  | .invokeOrFlags => .invoke orFlags [] .headerFieldStart
  | .invokeTestLenientFlags8 => .invoke testLenientFlags [] .error16
  | .error16 => .error 2 "Expected LF after chunk size" none
  | .chunkExtensions =>
      .switch id [(chars ['\r'], eat .error17), (chars [' '], eat .error18)]
          (peek .spanStartOnChunkExtensionName)
  | .error17 => .error 2 "Invalid character in chunk extensions" none
  | .error18 => .error 2 "Invalid character in chunk extensions" none
  | .spanStartOnChunkExtensionName => .spanStart .chunkExtensionName .chunkExtensionName
  | .chunkExtensionName =>
      .switch id [(chars ['\n'], peek .spanEndOnChunkExtensionName),
          (chars ['\r'], peek .spanEndOnChunkExtensionName1), (tokenBytes, eat .chunkExtensionName),
          (chars [';'], peek .spanEndOnChunkExtensionName2),
          (chars ['='], peek .spanEndOnChunkExtensionName3)] (peek .spanEndOnChunkExtensionName4)
  | .spanEndOnChunkExtensionName =>
      .spanEnd .chunkExtensionName false .invokeOnChunkExtensionNameComplete
  | .invokeOnChunkExtensionNameComplete =>
      .report .chunkExtensionNameComplete .invokeTestLenientFlags9
  | .invokeTestLenientFlags9 => .invoke testLenientFlags [] .error20
  | .error20 => .error 25 "Missing expected CR after chunk extension name" none
  | .spanEndOnChunkExtensionName1 =>
      .spanEnd .chunkExtensionName true .invokeOnChunkExtensionNameComplete1
  | .invokeOnChunkExtensionNameComplete1 => .report .chunkExtensionNameComplete .chunkSizeAlmostDone
  | .spanEndOnChunkExtensionName2 =>
      .spanEnd .chunkExtensionName true .invokeOnChunkExtensionNameComplete2
  | .invokeOnChunkExtensionNameComplete2 => .report .chunkExtensionNameComplete .chunkExtensions
  | .spanEndOnChunkExtensionName3 =>
      .spanEnd .chunkExtensionName true .spanStartOnChunkExtensionValue
  | .spanStartOnChunkExtensionValue =>
      .spanStart .chunkExtensionValue .invokeOnChunkExtensionNameComplete3
  | .invokeOnChunkExtensionNameComplete3 => .report .chunkExtensionNameComplete .chunkExtensionValue
  | .chunkExtensionValue =>
      .switch id [(chars ['\n'], peek .spanEndOnChunkExtensionValue),
          (chars ['\r'], peek .spanEndOnChunkExtensionValue1),
          (tokenBytes, eat .chunkExtensionValue), (chars ['"'], eat .chunkExtensionQuotedValue),
          (chars [';'], peek .spanEndOnChunkExtensionValue5)] (peek .spanEndOnChunkExtensionValue6)
  | .spanEndOnChunkExtensionValue =>
      .spanEnd .chunkExtensionValue false .invokeOnChunkExtensionValueComplete
  | .invokeOnChunkExtensionValueComplete =>
      .report .chunkExtensionValueComplete .invokeTestLenientFlags10
  | .invokeTestLenientFlags10 => .invoke testLenientFlags [] .error25
  | .error25 => .error 25 "Missing expected CR after chunk extension value" none
  | .spanEndOnChunkExtensionValue1 =>
      .spanEnd .chunkExtensionValue true .invokeOnChunkExtensionValueComplete1
  | .invokeOnChunkExtensionValueComplete1 =>
      .report .chunkExtensionValueComplete .chunkSizeAlmostDone
  | .chunkExtensionQuotedValue =>
      .switch id [(quotedBytes, eat .chunkExtensionQuotedValue),
          (chars ['"'], eat .spanEndOnChunkExtensionValue2),
          (chars ['\\'], eat .chunkExtensionQuotedValueQuotedPair)]
          (peek .spanEndOnChunkExtensionValue4)
  | .spanEndOnChunkExtensionValue2 =>
      .spanEnd .chunkExtensionValue false .invokeOnChunkExtensionValueComplete2
  | .invokeOnChunkExtensionValueComplete2 =>
      .report .chunkExtensionValueComplete .chunkExtensionQuotedValueDone
  | .chunkExtensionQuotedValueDone =>
      .switch id [(chars ['\n'], peek .invokeTestLenientFlags11),
          (chars ['\r'], eat .chunkSizeAlmostDone), (chars [';'], eat .chunkExtensions)]
          (peek .error29)
  | .invokeTestLenientFlags11 => .invoke testLenientFlags [] .error28
  | .error28 => .error 25 "Missing expected CR after chunk extension value" none
  | .error29 => .error 2 "Invalid character in chunk extensions quote value" none
  | .chunkExtensionQuotedValueQuotedPair =>
      .switch id [(valueBytes, eat .chunkExtensionQuotedValue)]
          (peek .spanEndOnChunkExtensionValue3)
  | .spanEndOnChunkExtensionValue3 => .spanEnd .chunkExtensionValue true .error30
  | .error30 => .error 2 "Invalid quoted-pair in chunk extensions quoted value" none
  | .spanEndOnChunkExtensionValue4 => .spanEnd .chunkExtensionValue true .error31
  | .error31 => .error 2 "Invalid character in chunk extensions quoted value" none
  | .spanEndOnChunkExtensionValue5 =>
      .spanEnd .chunkExtensionValue true .invokeOnChunkExtensionValueComplete3
  | .invokeOnChunkExtensionValueComplete3 => .report .chunkExtensionValueComplete .chunkExtensions
  | .spanEndOnChunkExtensionValue6 => .spanEnd .chunkExtensionValue true .error33
  | .error33 => .error 2 "Invalid character in chunk extensions value" none
  | .spanEndOnChunkExtensionName4 => .spanEnd .chunkExtensionName true .error34
  | .error34 => .error 2 "Invalid character in chunk extensions name" none
  | .error35 => .error 12 "Invalid character in chunk size" none
  | .error37 => .error 12 "Invalid character in chunk size" none

end Rslinker.Internal
