import Noobs.Spec.Device
import Noobs.Spec.Server

/-!
# The server's loop

`Web::WebServer::start` (`recovery/libs/Web/WebServer.cpp`): one connection after the
other, each of them to its end. Nobody ever sets `_stopServer`, so the loop is left only
by a callback that does not return, or by what ends the process.

What `accept` brings is a list of arrivals. A connection comes with what the rest of the
system is like when it is served: the numbers of the card, and what its body gives.
-/

namespace Noobs

inductive Arrival where
  /-- `accept` fails. -/
  | failed
  | connection (socket : Socket) (sys : Sysfs) (parseOS : Text → Except Fault (Option OSInfo))

inductive Status where
  | listening
  /-- The fuel ran out while a connection was read. -/
  | reading
  | ended (e : Ending)
  deriving DecidableEq, Repr

/-- The machine, what the server is doing, and the responses to each of the connections
that were served. -/
structure Serving where
  machine : Machine
  status : Status := .listening
  responses : List (List Response) := []

variable (I : IntType) (fuel : ℕ)

/-- The body of the loop. A response that cannot be sent is logged. -/
def Serving.accept (s : Serving) (a : Arrival) : Serving :=
  match s.status, a with
  | .listening, .connection socket sys parseOS =>
    match serveConnection I sys parseOS fuel socket s.machine with
    | none => { s with status := .reading }
    | some (ending, c) =>
      { machine := c.machine
        status := if ending = .closed then .listening else .ended ending
        responses := s.responses ++ [c.responses] }
  | _, _ => s

/-- `Web::WebServer::start`, as far as some arrivals take it. -/
def start (arrivals : List Arrival) (m : Machine) : Serving :=
  arrivals.foldl (Serving.accept I fuel) { machine := m }

/-- What a request has the device do. A body that ends the process takes no step. -/
def Request.tasks (request : Request) (sys : Sysfs) (parseOS : Text → Except Fault (Option OSInfo)) :
    List Task :=
  if request.path = "/os".toList ∧ request.method = "POST".toList then
    match parseOS (cString request.body) with
    | .ok osInfo => [.install sys (request.header.contains "AutoReboot".toList) osInfo]
    | .error _ => []
  else if request.path = "/bootPartition".toList ∧ request.method = "POST".toList then
    [.bootPartition request]
  else if request.path = "/reboot".toList ∧ request.method = "POST".toList then [.reboot]
  else []

/-- What a client has the device do. -/
def Arrival.tasks : Arrival → List Task
  | .failed => []
  | .connection socket sys parseOS =>
    match receiveRequest fuel socket with
    | some (.ok (true, request, _)) => request.tasks sys parseOS
    | _ => []

/-- The tasks a server takes from an arrival: none, once its loop was left. -/
def Serving.tasks (s : Serving) (a : Arrival) : List Task :=
  if s.status = .listening then a.tasks fuel else []

end Noobs
