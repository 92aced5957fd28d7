import Rslinker.Basic.Transition
import Rslinker.Llhttp.Parser
import Rslinker.Protocol.AntiSticky

set_option autoImplicit false

/-! # The loop of `start_http_channel`

Before it relays an HTTP connection, the channel reads the first request of the remote peer up to
the end of its headers and writes the request line and the headers, with the configured overrides,
to the local socket. What the local service sends meanwhile goes to the remote socket.

An event is one pass through the `select!`, with what the reads and writes in the chosen arm return.

The buffers, the parser and the two flags are the state of the channel; llhttp and the overrides
are what it is started with. A write may take a part of its buffer only, and the rest stays for the
next pass. The loop ends by `break` when the headers are complete, by an error, or by a panic, and
the three ends are kept apart.
-/

namespace Rslinker

inductive WriteBuf
  | ok (size : Nat)
  | err
  deriving DecidableEq, Repr

/-- What the channel is started with, and what it finds outside. -/
structure HttpSetup where
  llhttp : Llhttp
  autoOverride : Bool
  override_ : List (Bytes × Bytes)
  /-- The text of the local address, or its domain. -/
  host : Bytes
  /-- The order in which a `HashMap` is iterated. -/
  iter : Headers → Headers
  /-- `log::info!` evaluates its arguments. -/
  logsInfo : Bool

structure HttpChannel (L : Llhttp) where
  localBuf : Bytes
  remoteBuf : Bytes
  overrideRemoteBuf : Bytes
  requestParser : RequestParser L
  isRequestLineSend : Bool
  /-- The bytes written to the local socket so far. -/
  toLocal : Bytes
  /-- The bytes written to the remote socket so far. -/
  toRemote : Bytes

inductive HttpError
  | io
  /-- "Socket was closed" -/
  | closed
  | parser (errno : Nat)
  deriving DecidableEq, Repr

/-- The loop after a part of its body: it goes on, is left by `break`, returns an error, or panics. -/
inductive LoopStep (L : Llhttp)
  | next (c : HttpChannel L)
  | done (c : HttpChannel L)
  | failed (e : HttpError)
  | panicked

def LoopStep.bind {L : Llhttp} : LoopStep L → (HttpChannel L → LoopStep L) → LoopStep L
  | .next c, k => k c
  | .done c, _ => .done c
  | .failed e, _ => .failed e
  | .panicked, _ => .panicked

inductive HttpEvent
  /-- `local_socket.read_buf` has returned; then `remote_socket.write_buf`. -/
  | local (read : ReadBuf) (write : WriteBuf)
  /-- `remote_socket.read_buf` has returned; then the `local_socket.write_buf` of the request line
  and that of the headers. -/
  | remote (read : ReadBuf) (writeLine writeHeaders : WriteBuf)
  deriving DecidableEq, Repr

namespace HttpSetup

/-- `override_headers`: the entry for `Host`, then the configured ones. -/
def overrideHeaders (t : HttpSetup) : Headers :=
  t.override_.foldl (fun table e => table.insert e.1 e.2)
    (if t.autoOverride then Headers.insert [72, 111, 115, 116] t.host [] else [])

/-- `override_header_fn`: a line `key: value` for every header. -/
def overrideHeader (t : HttpSetup) (headers : Headers) : Bytes :=
  (t.iter headers).flatMap fun e =>
    e.1 ++ [58, 32] ++ (t.overrideHeaders.get e.1).getD e.2 ++ [13, 10]

end HttpSetup

namespace HttpChannel

variable {L : Llhttp}

def new (L : Llhttp) : HttpChannel L := ⟨[], [], [], .new L, false, [], []⟩

/-! ## The arm of the local socket

Whatever the local service sends before the headers are complete is put into a buffer and written
to the remote peer, as much as its socket takes at once. -/

def readLocal (c : HttpChannel L) : ReadBuf → LoopStep L
  | .err => .failed .io
  | .ok [] => .failed .closed
  | .ok data => .next { c with localBuf := c.localBuf ++ data }

def writeRemote (c : HttpChannel L) : WriteBuf → LoopStep L
  | .err => .failed .io
  | .ok 0 => .failed .closed
  | .ok size =>
      .next { c with
        toRemote := c.toRemote ++ c.localBuf.take size
        localBuf := c.localBuf.drop size }

/-! ## The arm of the remote socket

One read goes through the whole arm: it is logged, parsed and cleared, and what the parser has
found since the last read is formatted and put into the buffer for the local service. Each part may
return or panic, and the parts behind it are then not run. The request line is sent once, in the
first pass in which the version is known; headers are sent in every pass in which there are any. -/

def readRemote (c : HttpChannel L) : ReadBuf → LoopStep L
  | .err => .failed .io
  | .ok [] => .failed .closed
  | .ok data => .next { c with remoteBuf := c.remoteBuf ++ data }

/-- `log::info!("recv request: {}", String::from_utf8(remote_buf.to_vec()).unwrap())`. -/
def logRequest (logsInfo : Bool) (c : HttpChannel L) : LoopStep L :=
  if logsInfo then
    match fromUtf8 c.remoteBuf with
    | some _ => .next c
    | none => .panicked
  else .next c

/-- `request_parser.execute(&remote_buf[..])?; remote_buf.clear();` -/
def parse (c : HttpChannel L) : LoopStep L :=
  match c.requestParser.execute c.remoteBuf with
  | none => .panicked
  | some (p, 0) => .next { c with requestParser := p, remoteBuf := [] }
  | some (_, errno) => .failed (.parser errno)

def writeLocal (c : HttpChannel L) : WriteBuf → LoopStep L
  | .err => .failed .io
  | .ok 0 => .failed .closed
  | .ok size =>
      .next { c with
        toLocal := c.toLocal ++ c.overrideRemoteBuf.take size
        overrideRemoteBuf := c.overrideRemoteBuf.drop size }

/-- `format!("{} {} HTTP/{}\r\n", ..)`. -/
def requestLine (method url version : Bytes) : Bytes :=
  method ++ [32] ++ url ++ [32, 72, 84, 84, 80, 47] ++ version ++ [13, 10]

/-- The request line, once the version is known. -/
def sendRequestLine (w : WriteBuf) (c : HttpChannel L) : LoopStep L :=
  if c.requestParser.version.isSome && !c.isRequestLineSend then
    match c.requestParser.method, c.requestParser.url, c.requestParser.version with
    | some method, some url, some version =>
        writeLocal { c with
          isRequestLineSend := true
          overrideRemoteBuf := c.overrideRemoteBuf ++ requestLine method url version } w
    | _, _, _ => .panicked
  else .next c

def sendHeaders (t : HttpSetup) (w : WriteBuf) (c : HttpChannel L) : LoopStep L :=
  let (headers, p) := c.requestParser.takeHeaders
  if headers.isEmpty then .next { c with requestParser := p }
  else
    writeLocal { c with
      requestParser := p
      overrideRemoteBuf := c.overrideRemoteBuf ++ t.overrideHeader headers } w

/-- The end of the loop's body: `break` when the headers are complete. -/
def finishHeaders (c : HttpChannel L) : LoopStep L :=
  if c.requestParser.isHeaderComplete then
    let (content, p) := c.requestParser.takeBody
    .done { c with
      overrideRemoteBuf := c.overrideRemoteBuf ++ [13, 10] ++ content
      requestParser := p.reset }
  else .next c

/-- One pass through the loop. -/
def step (t : HttpSetup) (c : HttpChannel t.llhttp) : HttpEvent → LoopStep t.llhttp
  | .local read write => (c.readLocal read).bind fun c => c.writeRemote write
  | .remote read writeLine writeHeaders =>
      (c.readRemote read).bind fun c =>
      (c.logRequest t.logsInfo).bind fun c =>
      c.parse.bind fun c =>
      (c.sendRequestLine writeLine).bind fun c =>
      (c.sendHeaders t writeHeaders).bind fun c =>
      c.finishHeaders

/-- The loop, on the events of a list. -/
def loop (t : HttpSetup) : HttpChannel t.llhttp → List HttpEvent → LoopStep t.llhttp
  | c, [] => .next c
  | c, e :: es => (c.step t e).bind fun c => loop t c es

/-- The state with which the loop goes on after an event. -/
def advance (t : HttpSetup) (c : HttpChannel t.llhttp) (e : HttpEvent) :
    Option (HttpChannel t.llhttp) :=
  match c.step t e with
  | .next c => some c
  | _ => none

end HttpChannel

end Rslinker
