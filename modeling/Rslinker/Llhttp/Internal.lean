import Rslinker.Basic.ScannerCalls

set_option autoImplicit false

/-! # The data of llhttp

The fields of `llhttp__internal_t` that the parser of a request reads and writes, and the functions
on them that the nodes of `llhttp__internal__run` invoke: those of `llhttp.c`, under their names
without `llhttp__internal__c_`, and the three of `http.c`. A function returns the data and the `int`
for which the node switches.

The type is `HTTP_REQUEST`, as `RequestParser::new` sets it, and `lenient_flags` is 0: `llhttp_init`
clears it, `llhttp_reset` keeps it and nothing else sets it.
-/

namespace Rslinker

/-- `flags`, bit by bit. `F_SKIPBODY` is only set for a callback that does not return 0. -/
structure Flags where
  connectionKeepAlive : Bool
  connectionClose : Bool
  connectionUpgrade : Bool
  chunked : Bool
  upgrade : Bool
  contentLength : Bool
  trailing : Bool
  transferEncoding : Bool
  deriving DecidableEq, Repr

def Flags.none : Flags := ⟨false, false, false, false, false, false, false, false⟩

structure Internal where
  contentLength : Nat
  method : Nat
  httpMajor : Nat
  httpMinor : Nat
  headerState : Nat
  upgrade : Bool
  finish : Nat
  flags : Flags
  initialMessageCompleted : Bool
  deriving DecidableEq, Repr

namespace Internal

/-- `memset(state, 0, sizeof(*state))` in `llhttp__internal_init`. -/
def init : Internal := ⟨0, 0, 0, 0, 0, false, 0, .none, false⟩

def httpConnect : Nat := 5

def uint64Max : Nat := 2 ^ 64 - 1

/-! ## Functions of `llhttp.c`

In the order of the source, each under its name there. The generator has numbered functions with
the same purpose. Bits of `flags` are fields here: 1 is `F_CONNECTION_KEEP_ALIVE`, 2
`F_CONNECTION_CLOSE`, 4 `F_CONNECTION_UPGRADE`, 8 `F_CHUNKED`, 16 `F_UPGRADE`, 32
`F_CONTENT_LENGTH`, 128 `F_TRAILING` and 512 `F_TRANSFER_ENCODING`; `and_flags` with -9 takes
`F_CHUNKED` away. -/

def loadInitialMessageCompleted (d : Internal) : Internal × Nat :=
  (d, if d.initialMessageCompleted then 1 else 0)

def updateFinish (d : Internal) : Internal × Nat := ({ d with finish := 2 }, 0)

def updateFinish1 (d : Internal) : Internal × Nat := ({ d with finish := 0 }, 0)

def updateFinish3 (d : Internal) : Internal × Nat := ({ d with finish := 1 }, 0)

def loadType (d : Internal) : Internal × Nat := (d, 1)

/-- All of `test_lenient_flags`, `test_lenient_flags_1` and so on. -/
def testLenientFlags (d : Internal) : Internal × Nat := (d, 0)

def storeMethod (m : Nat) (d : Internal) : Internal × Nat := ({ d with method := m }, 0)

def loadMethod (d : Internal) : Internal × Nat := (d, d.method)

def isEqualMethod (d : Internal) : Internal × Nat := (d, if d.method = 5 then 1 else 0)

def updateHttpMajor (d : Internal) : Internal × Nat := ({ d with httpMajor := 0 }, 0)

def updateHttpMinor (d : Internal) : Internal × Nat := ({ d with httpMinor := 9 }, 0)

def storeHttpMajor (m : Nat) (d : Internal) : Internal × Nat := ({ d with httpMajor := m }, 0)

def storeHttpMinor (m : Nat) (d : Internal) : Internal × Nat := ({ d with httpMinor := m }, 0)

def loadHttpMajor (d : Internal) : Internal × Nat := (d, d.httpMajor)

def loadHttpMinor (d : Internal) : Internal × Nat := (d, d.httpMinor)

def testFlags (d : Internal) : Internal × Nat := (d, if d.flags.trailing then 1 else 0)

def testFlags2 (d : Internal) : Internal × Nat := (d, if d.flags.contentLength then 1 else 0)

def testFlags3 (d : Internal) : Internal × Nat := (d, if d.flags.chunked then 1 else 0)

def testFlags4 (d : Internal) : Internal × Nat := (d, if d.flags.transferEncoding then 1 else 0)

def orFlags (d : Internal) : Internal × Nat := ({ d with flags := { d.flags with trailing := true } }, 0)

def orFlags5 (d : Internal) : Internal × Nat :=
  ({ d with flags := { d.flags with connectionKeepAlive := true } }, 0)

def orFlags6 (d : Internal) : Internal × Nat :=
  ({ d with flags := { d.flags with connectionClose := true } }, 0)

def orFlags7 (d : Internal) : Internal × Nat :=
  ({ d with flags := { d.flags with connectionUpgrade := true } }, 0)

def orFlags8 (d : Internal) : Internal × Nat := ({ d with flags := { d.flags with chunked := true } }, 0)

def orFlags17 (d : Internal) : Internal × Nat :=
  ({ d with flags := { d.flags with contentLength := true } }, 0)

def orFlags18 (d : Internal) : Internal × Nat :=
  ({ d with flags := { d.flags with transferEncoding := true } }, 0)

def orFlags20 (d : Internal) : Internal × Nat :=
  ({ d with flags := { d.flags with upgrade := true } }, 0)

def andFlags (d : Internal) : Internal × Nat :=
  ({ d with flags := { d.flags with chunked := false } }, 0)

def isEqualUpgrade (d : Internal) : Internal × Nat := (d, if d.upgrade then 1 else 0)

def updateContentLength (d : Internal) : Internal × Nat := ({ d with contentLength := 0 }, 0)

def isEqualContentLength (d : Internal) : Internal × Nat := (d, if d.contentLength = 0 then 1 else 0)

/-- A digit of a number to the base `base`: 1 when the number would be too large. The product is
already there when the sum overflows. -/
def mulAdd (base m : Nat) (d : Internal) : Internal × Nat :=
  if uint64Max / base < d.contentLength then (d, 1)
  else if uint64Max - m < d.contentLength * base then
    ({ d with contentLength := d.contentLength * base }, 1)
  else ({ d with contentLength := d.contentLength * base + m }, 0)

def mulAddContentLength (m : Nat) (d : Internal) : Internal × Nat := d.mulAdd 16 m

def mulAddContentLength1 (m : Nat) (d : Internal) : Internal × Nat := d.mulAdd 10 m

def updateInitialMessageCompleted (d : Internal) : Internal × Nat :=
  ({ d with initialMessageCompleted := true }, 0)

def storeHeaderState (m : Nat) (d : Internal) : Internal × Nat := ({ d with headerState := m }, 0)

def loadHeaderState (d : Internal) : Internal × Nat := (d, d.headerState)

def updateHeaderState (d : Internal) : Internal × Nat := storeHeaderState 1 d

def updateHeaderState1 (d : Internal) : Internal × Nat := storeHeaderState 0 d

def updateHeaderState3 (d : Internal) : Internal × Nat := storeHeaderState 6 d

def updateHeaderState6 (d : Internal) : Internal × Nat := storeHeaderState 5 d

def updateHeaderState7 (d : Internal) : Internal × Nat := storeHeaderState 7 d

def updateHeaderState8 (d : Internal) : Internal × Nat := storeHeaderState 8 d

/-! ## Functions of `http.c`

The three that are written by hand, with the two that they call: `llhttp_message_needs_eof`, which
is false for a request, and `llhttp_should_keep_alive`. -/

def messageNeedsEof (_ : Internal) : Bool := false

def shouldKeepAlive (d : Internal) : Bool :=
  if d.httpMajor > 0 ∧ d.httpMinor > 0 then
    if d.flags.connectionClose then false else !d.messageNeedsEof
  else if !d.flags.connectionKeepAlive then false
  else !d.messageNeedsEof

def beforeHeadersComplete (d : Internal) : Internal × Nat :=
  if d.flags.upgrade && d.flags.connectionUpgrade then ({ d with upgrade := true }, 0)
  else ({ d with upgrade := d.method = httpConnect }, 0)

def afterHeadersComplete (d : Internal) : Internal × Nat :=
  let hasBody := d.flags.chunked || decide (d.contentLength > 0)
  (d,
    if d.upgrade && (d.method = httpConnect || !hasBody) then 1
    else if d.flags.chunked then 2
    else if d.flags.transferEncoding then 5
    else if !d.flags.contentLength then if !d.messageNeedsEof then 0 else 4
    else if d.contentLength = 0 then 0
    else 3)

def afterMessageComplete (d : Internal) : Internal × Nat :=
  ({ d with finish := 0, flags := .none }, if d.shouldKeepAlive then 1 else 0)

/-! ## Taking bytes of the body

The nodes that consume a body take what there is of it and count `content_length` down. -/

/-- `state->content_length -= avail` -/
def spend (d : Internal) (n : Nat) : Internal := { d with contentLength := d.contentLength - n }

@[simp] theorem spend_contentLength (d : Internal) (n : Nat) :
    (d.spend n).contentLength = d.contentLength - n := rfl

theorem spend_zero (d : Internal) : d.spend 0 = d := rfl

theorem spend_spend (d : Internal) (m n : Nat) : (d.spend m).spend n = d.spend (m + n) := by
  simp [spend, Nat.sub_sub]

end Internal

end Rslinker
