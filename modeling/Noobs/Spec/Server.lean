import Noobs.Spec.Install

/-!
# The REST server

One connection of `Web::WebServer::start` (`recovery/libs/Web/WebServer.cpp`), from the
request to the response, with the callbacks of `recovery/BootManager.cpp` under the
routes `BootManager::run` registers.

A connection is written to by the server and by some of the callbacks; the interim
`100 Continue` belongs to the reading of the request (`receive`) and is no response.
-/

namespace Noobs

/-! ## Responses -/

/-- What `Web::Server::Response::sendResponse` sends, at `date`. -/
def Response.prepared (r : Response) (date : Text) : Web :=
  { headerLine := "HTTP/1.0 ".toList ++ number r.code ++ ' ' :: r.phrase
    header := (((SortedMap.empty.insert "Server".toList "NOOBS4IoT 0.1a".toList).insert
      "Date".toList date).insert "Content-Type".toList r.type).insert
      "Content-Length".toList (number (cString r.body).length)
    body := r.body }

/-- The machine, and the responses written to the connection. -/
structure Connection where
  machine : Machine
  responses : List Response := []

/-- `Web::Server::Response::sendResponse`. -/
def Connection.sendResponse (c : Connection) (response : Response) : Connection :=
  { c with responses := c.responses ++ [response] }

/-! ## Callbacks -/

/-- How a callback ends: with a response for the server to send, or not at all. -/
inductive Return where
  | response (r : Response)
  | rebooted
  | exited
  | crashed (f : Fault)
  deriving DecidableEq, Repr

abbrev Callback := Request → Connection → Return × Connection

/-- Sends the response and boots the default partition, as two of the callbacks do. -/
def sendAndBoot (response : Response) (c : Connection) : Return × Connection :=
  let c := c.sendResponse response
  let r := c.machine.run (bootIntoPartition [])
  (if r.1 then .rebooted else .response response, { c with machine := r.2 })

section

variable (I : IntType) (sys : Sysfs) (parseOS : Text → Except Fault (Option OSInfo))

/-- `BootManager::installOSREST`. `parseOS` says what the body gives: `none` if it is no JSON
or no valid operating system, and a fault if downloading what it names ends the process. -/
def installOSCallback : Callback := fun request c =>
  match parseOS (cString request.body) with
  | .error f => (.crashed f, c)
  | .ok osInfo =>
    let autoReboot := request.header.contains "AutoReboot".toList
    let r := c.machine.run (installOSREST I sys autoReboot osInfo)
    let c := { c with machine := r.2 }
    if r.1.code = 200 ∧ autoReboot then sendAndBoot r.1 c else (.response r.1, c)

/-- `BootManager::setDefaultBootPartitionREST`. -/
def setDefaultBootPartitionCallback : Callback := fun request c =>
  let r := c.machine.run (setDefaultBootPartitionREST request)
  (.response r.1, { c with machine := r.2 })

/-- `BootManager::rebootToDefaultPartition`. -/
def rebootToDefaultPartition : Callback := fun _ c =>
  sendAndBoot { body := "Reboot into default partition now\n".toList } c

/-- `BootManager::exitToShell`. -/
def exitToShell : Callback := fun _ c =>
  (.exited, c.sendResponse { body := "Exit to recovery shell now\n".toList })

/-! ## Routes -/

/-- `Web::Server::Route`. -/
structure Route where
  path : Text
  method : Text
  callback : Callback

/-- `Web::WebServer::post`. -/
def post (path : String) (callback : Callback) : Route := ⟨path.toList, "POST".toList, callback⟩

/-- The routes `BootManager::run` registers. -/
def routes : List Route :=
  [post "/os" (installOSCallback I sys parseOS),
    post "/bootPartition" setDefaultBootPartitionCallback,
    post "/reboot" rebootToDefaultPartition,
    post "/exit" exitToShell]

/-- Whether a route is for a request. -/
def Route.Matches (route : Route) (request : Request) : Bool :=
  decide (route.path = request.path ∧ (route.method = request.method ∨ route.method = "ALL".toList))

/-- `Web::WebServer::matchRoute`: what the callback of the first route does that matches, if
there is one. -/
def matchRoute (request : Request) (c : Connection) : List Route → Option (Return × Connection)
  | [] => none
  | route :: rest =>
    if route.Matches request then some (route.callback request c) else matchRoute request c rest

/-! ## Connections -/

/-- What becomes of a connection. -/
inductive Ending where
  | closed
  | rebooted
  | exited
  | crashed (f : Fault)
  deriving DecidableEq, Repr

/-- What the server sends if no callback has made a response. -/
def notFound : Response :=
  { code := 404, phrase := "Not Found".toList, body := "Not found".toList }

/-- What the server does when a callback has ended. -/
def afterCallback : Return × Connection → Ending × Connection
  | (.response response, c) => (.closed, c.sendResponse response)
  | (.rebooted, c) => (.rebooted, c)
  | (.exited, c) => (.exited, c)
  | (.crashed f, c) => (.crashed f, c)

/-- The body of the loop of `Web::WebServer::start`, behind `accept`. -/
def serveConnection (fuel : ℕ) (socket : Socket) (m : Machine) : Option (Ending × Connection) :=
  let c : Connection := { machine := m }
  match receiveRequest fuel socket with
  | none => none
  | some (.error f) => some (.crashed f, c)
  | some (.ok (false, _, _)) => some (.closed, c.sendResponse (badRequest "Bad Request".toList))
  | some (.ok (true, request, _)) =>
    match matchRoute request c (routes I sys parseOS) with
    | none => some (.closed, c.sendResponse notFound)
    | some r => some (afterCallback r)

end

end Noobs
