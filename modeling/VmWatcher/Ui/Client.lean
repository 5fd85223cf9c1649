import VmWatcher.Daemon.Connection

/-!
# The client (`vm-bandwidth/src/ui.rs`)

`Client::request` is blocking: it writes a request, reads the length of the reply and then
its body. The interface drops the client whenever that fails and connects anew, so a link is
followed only until the client is dropped.
-/

namespace VmWatcher

open Framing Ipc

namespace Client

/-- How many bytes the call reads next at most: never more than its reply has. -/
def wants (got : Bytes) : ℕ :=
  if got.length < 4 then 4 - got.length
  else
    match validateFrameLen (fromBeBytes (got.take 4)) maxResponseFrame with
    | .error _ => 0
    | .ok len => 4 + len - got.length

/-- The result of a call that has read these bytes. -/
def result (wire : Wire) (got : Bytes) : Option (Except String (Response Float)) :=
  if got.length < 4 then none
  else
    match validateFrameLen (fromBeBytes (got.take 4)) maxResponseFrame with
    | .error e => some (.error e)
    | .ok len =>
      if got.length < 4 + len then none
      else some (decode wire.response ((got.drop 4).take len))

end Client

/-- Where the client is. -/
inductive ClientPhase where
  | idle
  /-- In a call: what is left to write of the request, and what it has read of the reply. -/
  | calling (req : Request) (unsent got : Bytes)
  | dropped
  deriving DecidableEq, Repr

/-- A client, its socket and the daemon's end of it. -/
structure Link (wire : Wire) where
  client : ClientPhase := .idle
  up : Bytes := []
  down : Bytes := []
  daemon : Connection wire := {}
  /-- The calls that were made, and those that returned a reply. -/
  calls : List Request := []
  returned : List (Request × Response Float) := []

namespace Link

inductive Event where
  | call (req : Request)
  /-- So many bytes of the request are written. -/
  | send (n : ℕ)
  /-- The daemon reads so many bytes. -/
  | receive (n : ℕ)
  /-- The daemon looks for the next request. -/
  | next
  /-- The daemon writes so many bytes of a reply. -/
  | write (n : ℕ)
  /-- The daemon's end is torn down. -/
  | fail
  /-- The call reads so many bytes of its reply. -/
  | read (n : ℕ)
  /-- The call ends. -/
  | done
  /-- The call times out or its socket fails. -/
  | drop

section Step

variable (wire : Wire) (engine : Asked)

/-- One event. -/
def step (l : Link wire) : Event → Option (Link wire)
  | .call req =>
    match l.client, encode wire.request req with
    | .idle, .ok bytes =>
      some { l with client := .calling req bytes [], calls := l.calls ++ [req] }
    | .idle, .error _ => some { l with client := .dropped }
    | _, _ => none
  | .send n =>
    match l.client with
    | .calling req unsent got =>
      some { l with client := .calling req (unsent.drop n) got, up := l.up ++ unsent.take n }
    | _ => none
  | .receive n => do
    let daemon ← l.daemon.step wire engine (.receive (l.up.take n))
    return { l with daemon, up := l.up.drop n }
  | .next => do
    let daemon ← l.daemon.step wire engine .next
    return { l with daemon }
  | .write n => do
    let daemon ← l.daemon.step wire engine (.write n)
    return { l with daemon, down := l.down ++ l.daemon.unsent.take n }
  | .fail => do
    let daemon ← l.daemon.step wire engine .fail
    return { l with daemon }
  | .read n =>
    match l.client with
    | .calling req [] got =>
      if n ≤ Client.wants got then
        some { l with client := .calling req [] (got ++ l.down.take n), down := l.down.drop n }
      else none
    | _ => none
  | .done =>
    match l.client with
    | .calling req [] got =>
      match Client.result wire got with
      | some (.ok resp) => some { l with client := .idle, returned := l.returned ++ [(req, resp)] }
      | some (.error _) => some { l with client := .dropped }
      | none => none
    | _ => none
  | .drop => some { l with client := .dropped }

/-- A run of events. -/
def run (events : List Event) : Option (Link wire) := events.foldlM (step wire engine) {}

end Step

end Link

end VmWatcher
