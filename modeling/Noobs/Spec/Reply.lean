import Noobs.Lib.Frames
import Noobs.Spec.Listen

/-!
# What a client reads

The messages a client of the server is sent, with the dates `Web::Server::Response` puts
into them (`recovery/libs/Web/WebServer.cpp`), and how one who goes by HTTP takes messages
off a stream: a status line, fields up to a blank line, and as much of a body as
`Content-Length` says.
-/

namespace Noobs

/-! ## Dates -/

/-- `struct tm`, as `gmtime` fills it. -/
structure Tm where
  sec : Fin 61
  min : Fin 60
  hour : Fin 24
  mday : Fin 32
  mon : Fin 12
  /-- Counted from 1900. -/
  year : ℤ
  wday : Fin 7
  year_int : -2 ^ 31 ≤ year ∧ year < 2 ^ 31
  deriving DecidableEq

/-- The name with this number among names of three letters. -/
def threeLetters (names : String) (i : ℕ) : Text := (names.toList.drop (3 * i)).take 3

def twoDigits (n : ℕ) : Text := [Nat.digitChar (n / 10), Nat.digitChar (n % 10)]

/-- The date of a response: `strftime` with `%a, %d %b %Y %H:%M:%S %Z`. -/
def Tm.date (t : Tm) : Text :=
  threeLetters "SunMonTueWedThuFriSat" t.wday ++ ", ".toList ++ twoDigits t.mday ++ ' ' ::
    threeLetters "JanFebMarAprMayJunJulAugSepOctNovDec" t.mon ++ ' ' :: number (t.year + 1900) ++ ' ' ::
    twoDigits t.hour ++ ':' :: twoDigits t.min ++ ':' :: twoDigits t.sec ++ " GMT".toList

/-! ## What is sent -/

/-- What `Web::Web::send` puts into `header_buffer`. -/
def Web.headerText (w : Web) : Text :=
  cString w.headerLine ++ "\r\n".toList ++
    (w.header.entries.flatMap fun e => cString e.1 ++ ": ".toList ++ cString e.2 ++ "\r\n".toList) ++
    "\r\n".toList

/-- What `receive` answers to an `Expect` field. -/
def expectResponse : Web := { headerLine := "HTTP/1.0 100 Continue".toList }

/-- What a client is sent while its request is read, if reading it does not end the process. -/
def Arrival.interim (fuel : ℕ) : Arrival → List Text
  | .failed => []
  | .connection socket _ _ =>
    match receiveRequest fuel socket with
    | some (.ok (_, _, s)) => s.sent.drop socket.sent.length
    | _ => []

/-- All a client is sent: that, and the responses, each made at its time. -/
def Arrival.stream (fuel : ℕ) (a : Arrival) (responses : List (Response × Tm)) : Text :=
  (a.interim fuel ++ responses.map fun r => (r.1.prepared r.2.date).message).flatten

/-! ## What is read -/

/-- A message as its reader has it. -/
structure Reply where
  version : Text
  code : ℤ
  phrase : Text
  fields : List (Text × Text)
  body : Text
  deriving DecidableEq

def withoutReturn (line : Text) : Text := if line.getLast? = some '\r' then line.dropLast else line

def endsHeader (line : Text) : Bool := decide (withoutReturn line = [])

def trim (text : Text) : Text := (text.dropWhile isSpace).rdropWhile isSpace

def readStatus (line : Text) : Option (Text × ℤ × Text) := do
  let (version, rest) ← takeLine ' ' line
  let (code, phrase) ← takeLine ' ' rest
  let code ← integer code
  return (version, code, phrase)

def readField (line : Text) : Option (Text × Text) := do
  let (key, value) ← takeLine ':' line
  return (key, trim value)

/-- The size of the body. A message that does not say it has none. -/
def contentLength (fields : List (Text × Text)) : Option ℕ :=
  match fields.find? fun field => equalsInsensitive field.1 "Content-Length".toList with
  | none => some 0
  | some (_, value) => (integer value).bind fun n => if 0 ≤ n then some n.toNat else none

/-- Takes a message off a stream. -/
def readReply (stream : Text) : Option (Reply × Text) := do
  let (block, rest) ← takeBlock '\n' endsHeader stream.length stream
  match block.map withoutReturn with
  | [] => none
  | line :: lines => do
    let (version, code, phrase) ← readStatus line
    let fields ← lines.mapM readField
    let n ← contentLength fields
    if rest.length < n then none
    else return ({ version, code, phrase, fields, body := rest.take n }, rest.drop n)

/-- Takes all messages off a stream. -/
def readReplies (stream : Text) : Option (List Reply) := readFrames readReply stream.length stream

/-- What is to be read of a response. -/
def Response.reply (r : Response) (t : Tm) : Reply :=
  { version := "HTTP/1.0".toList
    code := r.code
    phrase := r.phrase
    fields := [("Content-Length".toList, number (cString r.body).length), ("Content-Type".toList, r.type),
      ("Date".toList, t.date), ("Server".toList, "NOOBS4IoT 0.1a".toList)]
    body := cString r.body }

/-- What is to be read of all that a client is sent: perhaps the interim message, and the
responses. -/
def replies (expects : Bool) (responses : List (Response × Tm)) : List Reply :=
  (if expects then [{ version := "HTTP/1.0".toList, code := 100, phrase := "Continue".toList,
                      fields := [], body := [] }] else []) ++
    responses.map fun r => r.1.reply r.2

end Noobs
