import Noobs.Spec.Web

/-!
# The web client

`Web::WebClient` with its requests and responses (`recovery/libs/Web/WebClient.cpp`),
which downloads what an operating system's JSON names.

What `openSocket` connects to is a parameter: the socket holds what the server will
answer. Where nothing can be opened, or nothing sent, there is none.
-/

namespace Noobs

/-- `Web::Client::Request`. -/
structure ClientRequest extends Web where
  method : Text := []
  path : Text := []
  host : Text := []
  accept : Text := "*/*".toList

/-- What `Web::Client::Request::sendRequest` sends. -/
def ClientRequest.prepared (r : ClientRequest) : Web :=
  { headerLine := r.method ++ ' ' :: r.path ++ " HTTP/1.1".toList
    header := ((r.header.insert "Host".toList r.host).insert "User-Agent".toList
      "NOOBS4IoT 0.1a".toList).insert "Accept".toList r.accept
    body := r.body }

/-- `Web::Client::Request::sendRequest`. -/
def ClientRequest.sendRequest (r : ClientRequest) (s : Socket) : Socket := s.send r.prepared

/-- `Web::Client::Response`. -/
structure ClientResponse extends Web where
  code : ℤ := 0
  phrase : Text := []

/-- `Web::Client::Response::receiveResponse`, on a new response. -/
def receiveResponse (fuel : ℕ) (s : Socket) : Option (Except Fault (Bool × ClientResponse × Socket)) :=
  match receive fuel {} s with
  | none => none
  | some (.error f) => some (.error f)
  | some (.ok (false, w, s)) => some (.ok (false, { toWeb := w }, s))
  | some (.ok (true, w, s)) =>
    match split w.headerLine ' ' with
    | [version, code, phrase] =>
      if version ≠ "HTTP/1.1".toList then some (.ok (false, { toWeb := w }, s))
      else
        match stoi code with
        | .error f => some (.error f)
        -- removing trailing \r
        | .ok n => some (.ok (true, { toWeb := w, code := n, phrase := phrase.dropLast }, s))
    | _ => some (.ok (false, { toWeb := w }, s))

namespace WebClient

variable (openSocket : Text → ℕ → Option Socket)

/-- `Web::WebClient::get(host, path, port)`. Nothing asks for the code of the response. -/
def getFrom (fuel : ℕ) (host path : Text) (port : ℕ) : Option (Except Fault Text) :=
  match openSocket host port with
  | none => some (.ok [])
  | some s =>
    let request : ClientRequest := { method := "GET".toList, path := path, host := host }
    match receiveResponse fuel (request.sendRequest s) with
    | none => none
    | some (.error f) => some (.error f)
    | some (.ok (false, _, _)) => some (.ok [])
    | some (.ok (true, response, _)) => some (.ok response.body)

/-- The URL behind `http://`, unless it is one with `https://`. -/
def withoutScheme (url : Text) : Option Text :=
  if "http://".toList <+: url then some (url.drop "http://".toList.length)
  else if "https://".toList <+: url then none
  else some url

/-- `Web::WebClient::get(url)`. `urlVector[1]` is read although it may not be there. -/
def get (fuel : ℕ) (url : Text) : Option (Except Fault Text) :=
  match withoutScheme url with
  | none => some (.ok [])
  | some url =>
    match split url '/' with
    | host :: path :: more => getFrom openSocket fuel host ('/' :: ['/'].intercalate (path :: more)) 80
    | _ => some (.error .bufferOverread)

end WebClient

end Noobs
