import Rslinker.Basic.Utf8

set_option autoImplicit false

/-! # `RequestParser`

The callbacks of `llhttp/mod.rs` collect what llhttp reports about a request. They are `extern "C"`
functions, so a panic in one of them aborts the process; a function here returns `none` when the
source panics. llhttp itself is a parameter: its state, and what `llhttp_execute` calls back and
returns for a piece of input. All callbacks return 0, so they do not influence it.

A part of the request is built up from spans and moved to its place when it is complete. Headers
are inserted into a hash map when their value is complete, so a later one replaces an earlier one
of the same name; `take_headers` and `take_body` hand out what there is and leave nothing.

A Rust `String` is the list of its bytes.
-/

namespace Rslinker

/-- The calls llhttp makes to the callbacks that `RequestParser::new` has set. -/
inductive Callback
  | url (span : Bytes)
  | urlComplete
  | method (span : Bytes)
  | methodComplete
  | version (span : Bytes)
  | versionComplete
  | headerField (span : Bytes)
  | headerValue (span : Bytes)
  | headerValueComplete
  | headersComplete
  | body (span : Bytes)
  deriving DecidableEq, Repr

/-- What the program uses of llhttp. An error number 0 is `HPE_OK`. -/
structure Llhttp where
  State : Type
  init : State
  execute : State → Bytes → State × List Callback × Nat
  reset : State → State

/-- `std::str::from_utf8(..).unwrap()` and `String::from_utf8(..).unwrap()`. -/
def fromUtf8 (bytes : Bytes) : Option Bytes := if Utf8.valid bytes then some bytes else none

/-- The entries of a `HashMap<Ascii<String>, String>`. -/
abbrev Headers := List (Bytes × Bytes)

def asciiLower (b : UInt8) : UInt8 := if 65 ≤ b ∧ b ≤ 90 then b + 32 else b

/-- The equality of `unicase::Ascii`. -/
def asciiEq (a b : Bytes) : Bool := a.map asciiLower = b.map asciiLower

/-- `HashMap::insert`: a key that is there keeps its spelling and gets the new value. -/
def Headers.insert (key value : Bytes) : Headers → Headers
  | [] => [(key, value)]
  | (k, v) :: rest =>
      if asciiEq k key then (k, value) :: rest else (k, v) :: Headers.insert key value rest

def Headers.get (headers : Headers) (key : Bytes) : Option Bytes :=
  (headers.find? fun e => asciiEq e.1 key).map Prod.snd

structure RequestParser (L : Llhttp) where
  parser : L.State
  isHeaderComplete : Bool
  method : Option Bytes
  url : Option Bytes
  version : Option Bytes
  headers : Headers
  methodBuf : Bytes
  urlBuf : Bytes
  versionBuf : Bytes
  headerFieldBuf : Bytes
  headerValueBuf : Bytes
  bodyBuf : Bytes

namespace RequestParser

variable {L : Llhttp}

def new (L : Llhttp) : RequestParser L :=
  ⟨L.init, false, none, none, none, [], [], [], [], [], [], []⟩

/-- The callback functions. -/
def onCallback (p : RequestParser L) : Callback → Option (RequestParser L)
  | .url span => (fromUtf8 span).map fun s => { p with urlBuf := p.urlBuf ++ s }
  | .method span => (fromUtf8 span).map fun s => { p with methodBuf := p.methodBuf ++ s }
  | .version span => (fromUtf8 span).map fun s => { p with versionBuf := p.versionBuf ++ s }
  | .headerField span =>
      (fromUtf8 span).map fun s => { p with headerFieldBuf := p.headerFieldBuf ++ s }
  | .headerValue span =>
      (fromUtf8 span).map fun s => { p with headerValueBuf := p.headerValueBuf ++ s }
  | .body span => some { p with bodyBuf := p.bodyBuf ++ span }
  | .urlComplete => some { p with url := some p.urlBuf, urlBuf := [] }
  | .methodComplete => some { p with method := some p.methodBuf, methodBuf := [] }
  | .versionComplete => some { p with version := some p.versionBuf, versionBuf := [] }
  | .headerValueComplete =>
      some { p with
        headers := p.headers.insert p.headerFieldBuf p.headerValueBuf
        headerFieldBuf := []
        headerValueBuf := [] }
  | .headersComplete => some { p with isHeaderComplete := true }

def onCallbacks (p : RequestParser L) : List Callback → Option (RequestParser L)
  | [] => some p
  | cb :: cbs => (p.onCallback cb).bind fun p => p.onCallbacks cbs

/-- `execute`: the parser after it, and the error number it returns. -/
def execute (p : RequestParser L) (bytes : Bytes) : Option (RequestParser L × Nat) :=
  let (state, cbs, errno) := L.execute p.parser bytes
  (({ p with parser := state } : RequestParser L).onCallbacks cbs).map fun p => (p, errno)

def takeHeaders (p : RequestParser L) : Headers × RequestParser L :=
  (p.headers, { p with headers := [] })

def takeBody (p : RequestParser L) : Bytes × RequestParser L :=
  (p.bodyBuf, { p with bodyBuf := [] })

def reset (p : RequestParser L) : RequestParser L :=
  { new L with parser := L.reset p.parser }

end RequestParser

end Rslinker
