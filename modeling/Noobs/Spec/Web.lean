import Noobs.Lib.Lines
import Noobs.Lib.SortedMap
import Noobs.Spec.Partition
import Mathlib.Data.Char
import Mathlib.Data.List.Lex

/-!
# The web library

How a request is read from a socket and parsed: `Web::Web::receive` with its two
reading phases (`recovery/libs/Web/Web.cpp`) and
`Web::Server::Request::receiveRequest` (`recovery/libs/Web/WebServer.cpp`).

A socket is a list of events, as `select` and `read` report them, and what they
report for ever once the list is used up. What ends the process (an exception
nobody catches, a scan that leaves its buffer) is a `Fault`. Only the `do … while`
loop of `receive` needs `fuel`: it need not end. `none` means the fuel ran out.
-/

namespace Noobs

/-! ## Sockets -/

/-- `BUFFER_SIZE`. -/
def bufferSize : ℕ := 4096

def nul : Char := Char.ofNat 0

/-- What one `read` delivers. -/
structure Chunk where
  bytes : Text
  nonempty : bytes ≠ []
  fits : bytes.length ≤ bufferSize
  deriving DecidableEq

/-- What else `select` and `read` may report: no data for a second, the end of the
stream, an error. -/
inductive Pause where
  | timeout
  | eof
  | error
  deriving DecidableEq, Repr

/-- What the pause leaves in `thisRoundRead`. -/
def Pause.thisRoundRead : Pause → ℤ
  | .timeout => 0
  | .eof => 0
  | .error => -1

inductive Event where
  | chunk (c : Chunk)
  | pause (p : Pause)
  deriving DecidableEq

/-- A connection: the events to come, the pause that follows them for ever, and the
messages sent. -/
structure Socket where
  events : List Event
  idle : Pause
  sent : List Text := []

/-- What ends the process. -/
inductive Fault where
  | bufferOverread
  | invalidArgument
  | outOfRange
  deriving DecidableEq, Repr

/-! ## Messages -/

/-- `Web::Web`. -/
structure Web where
  headerLine : Text := []
  header : SortedMap Text Text := SortedMap.empty
  body : Text := []
  bytesRead : ℤ := 0

/-- A `std::string` as a C string. -/
def cString (text : Text) : Text := text.takeWhile (· ≠ nul)

/-- What `Web::Web::send` writes, if the header fits into `HEADER_BUFFER`. -/
def Web.message (w : Web) : Text :=
  cString w.headerLine ++ "\r\n".toList ++
    (w.header.entries.flatMap fun e => cString e.1 ++ ": ".toList ++ cString e.2 ++ "\r\n".toList) ++
    "\r\n".toList ++ cString w.body

/-- `Web::Web::send`; its result is not looked at where it is used here. -/
def Socket.send (s : Socket) (w : Web) : Socket := { s with sent := s.sent ++ [w.message] }

/-- `Web::split`. -/
def split (text : Text) (sep : Char) : List Text := text.splitOn sep

/-- The characters `strtol` skips. -/
def isSpace (c : Char) : Bool := c = ' ' || (9 ≤ c.toNat && c.toNat ≤ 13)

/-- `std::stoi`. -/
def stoi (text : Text) : Except Fault ℤ :=
  let text := text.dropWhile isSpace
  let negative := text.head? = some '-'
  let text := if negative ∨ text.head? = some '+' then text.tail else text
  let digits := text.takeWhile Char.isDigit
  if digits = [] then .error .invalidArgument
  else
    let value : ℤ := Nat.ofDigitChars 10 digits 0
    let value := if negative then -value else value
    if -2 ^ 31 ≤ value ∧ value < 2 ^ 31 then .ok value else .error .outOfRange

/-! ## Parsing -/

/-- The key and the value of a header line, if it has a colon. -/
def headerField (line : Text) : Option (Text × Text) :=
  match split line ':' with
  | key :: value :: more =>
    let value := [':'].intercalate (value :: more)
    -- removing unnecessary space at the start
    some (key, if value.head? = some ' ' then value.tail else value)
  | _ => none

/-- `Web::Web::parseHeaderLine`. A line without a colon is ignored. -/
def Web.parseHeaderLine (w : Web) (line : Text) : Web :=
  match headerField line with
  | some (key, value) => { w with header := w.header.insert key value }
  | none => w

/-- `Web::Web::parseBodyLine`. -/
def Web.parseBodyLine (w : Web) (line : Text) : Web := { w with body := w.body ++ line ++ ['\n'] }

/-- The loop of `parseReceive`: whether it left the header, and the message so far. -/
def parseLines : (header methodLine : Bool) → Web → List Text → Bool × Web
  | header, _, w, [] => (!header, w)
  | true, true, w, line :: rest => parseLines true false { w with headerLine := line } rest
  | true, false, w, line :: rest =>
    if line = ['\r'] then parseLines false false w rest
    else parseLines true false (w.parseHeaderLine line) rest
  | false, methodLine, w, line :: rest => parseLines false methodLine (w.parseBodyLine line) rest

/-- `Web::Web::parseReceive`. -/
def Web.parseReceive (w : Web) (bufferString : Text) (skipHeader : Bool) : Bool × Web :=
  parseLines (!skipHeader) true w (lines '\n' bufferString)

/-! ## Reading -/

/-- The C string in the cleared buffer after `read` has written a chunk to it. -/
def Chunk.scan (c : Chunk) : Except Fault Text :=
  if c.bytes.length < bufferSize ∨ nul ∈ c.bytes then .ok (c.bytes.takeWhile (· ≠ nul))
  else .error .bufferOverread

/-- What a round of reading leaves: the last `thisRoundRead`, the buffer, the byte
counter and the events to come. -/
structure Reading where
  thisRoundRead : ℤ
  bufferString : Text
  bytesRead : ℤ
  rest : List Event

/-- The loop of `Web::Web::readReceive`: reads until the first pause. -/
def readEvents (idle : Pause) : List Event → Text → ℤ → Except Fault Reading
  | [], bufferString, bytesRead =>
    .ok ⟨idle.thisRoundRead, bufferString, bytesRead + idle.thisRoundRead, []⟩
  | .pause p :: rest, bufferString, bytesRead =>
    .ok ⟨p.thisRoundRead, bufferString, bytesRead + p.thisRoundRead, rest⟩
  | .chunk c :: rest, bufferString, bytesRead => do
    let text ← c.scan
    readEvents idle rest (bufferString ++ text) (bytesRead + c.bytes.length)

/-- `Web::Web::readReceive`. -/
def readReceive (w : Web) (s : Socket) (bufferString : Text) :
    Except Fault (Bool × Text × Web × Socket) := do
  let r ← readEvents s.idle s.events bufferString w.bytesRead
  return (decide (0 ≤ r.thisRoundRead), r.bufferString, { w with bytesRead := r.bytesRead },
    { s with events := r.rest })

/-- The `do … while` loop of `receive`: reads until `messageSize` bytes were read in all,
or just once if that is -1. -/
def continueReading (messageSize : ℤ) : (fuel : ℕ) → Web → Socket → Text →
    Option (Except Fault (Bool × Text × Web × Socket))
  | 0, _, _, _ => none
  | fuel + 1, w, s, bufferString =>
    match readReceive w s bufferString with
    | .error f => some (.error f)
    | .ok (false, r) => some (.ok (false, r))
    | .ok (true, bufferString, w, s) =>
      if messageSize ≠ -1 ∧ w.bytesRead < messageSize then
        continueReading messageSize fuel w s bufferString
      else some (.ok (true, bufferString, w, s))

/-- The size `receive` waits for: the `Content-Length` if it exceeds what was read, else -1. -/
def Web.messageSize (w : Web) : Except Fault ℤ :=
  match w.header.find? "Content-Length".toList with
  | none => .ok (-1)
  | some value => do
    let n ← stoi value
    return if n > w.bytesRead then n else -1

def Web.expectsContinue (w : Web) : Bool :=
  w.header.find? "Expect".toList = some "100-continue\r".toList

/-- `Web::Web::receive` from where the header has been parsed. -/
def receiveBody (fuel : ℕ) (w : Web) (s : Socket) : Option (Except Fault (Bool × Web × Socket)) :=
  let s := if w.expectsContinue then s.send { headerLine := "HTTP/1.0 100 Continue".toList } else s
  match w.messageSize with
  | .error f => some (.error f)
  | .ok messageSize =>
    -- removing last newline
    let w := if messageSize ≠ -1 then { w with body := w.body.dropLast } else w
    if w.expectsContinue ∨ messageSize ≠ -1 then
      match continueReading messageSize fuel w s [] with
      | none => none
      | some (.error f) => some (.error f)
      | some (.ok (false, _, w, s)) => some (.ok (false, w, s))
      | some (.ok (true, bufferString, w, s)) =>
        let r := w.parseReceive bufferString true
        some (.ok (r.1, r.2, s))
    else some (.ok (true, w, s))

/-- `Web::Web::receive`. -/
def receive (fuel : ℕ) (w : Web) (s : Socket) : Option (Except Fault (Bool × Web × Socket)) :=
  match readReceive { w with bytesRead := 0 } s [] with
  | .error f => some (.error f)
  | .ok (false, _, w, s) => some (.ok (false, w, s))
  | .ok (true, bufferString, w, s) =>
    match w.parseReceive bufferString false with
    | (false, w) => some (.ok (false, w, s))
    | (true, w) => receiveBody fuel w s

/-- `Web::Server::Request`. -/
structure Request extends Web where
  method : Text := []
  path : Text := []

/-- `Web::Server::Request::receiveRequest`, on a new request. -/
def receiveRequest (fuel : ℕ) (s : Socket) : Option (Except Fault (Bool × Request × Socket)) :=
  match receive fuel {} s with
  | none => none
  | some (.error f) => some (.error f)
  | some (.ok (false, w, s)) => some (.ok (false, { toWeb := w }, s))
  | some (.ok (true, w, s)) =>
    match split w.headerLine ' ' with
    | [method, path, version] =>
      if version ≠ "HTTP/1.1\r".toList then some (.ok (false, { toWeb := w }, s))
      else some (.ok (true, { toWeb := w, method := method, path := path }, s))
    | _ => some (.ok (false, { toWeb := w }, s))

end Noobs
