import VmWatcher.Core.Ipc

/-!
# Connections (`vm-bandwidth/src/daemon.rs`)

`handle_connection` serves one client, in a task of its own. It reads what the client sends
in chunks of any size, hands one request at a time to the engine, and writes the reply
before it looks for the next request. The engine is a parameter: what it answers when it is
asked for the n-th time by this connection, unless it is gone. So are `serde_json` and the
frames of `tokio_util`. Logging is left out.
-/

namespace VmWatcher

open Framing Ipc

/-- What other crates do for a connection. -/
structure Wire where
  request : Serde Request
  response : Serde (Response Float)
  /-- The stream of requests: `FramedRead` with a `LengthDelimitedCodec`. -/
  requests : Reader
  /-- `FramedWrite::send` of a response: the bytes it writes. -/
  send : Bytes → Except String Bytes

/-- Asked for the n-th time by a connection. -/
abbrev Asked := ℕ → Request → Option (Response Float)

namespace Wire

variable (wire : Wire)

/-- The message of a response that does not fit in a frame. -/
def tooLarge (len : ℕ) : String :=
  s!"response body of {len} bytes exceeds the {maxResponseFrame}-byte protocol limit; the range " ++
    "detail is bounded by collector.map_max_entries — reduce it or query a smaller range"

/-- `send_response`: what it writes, and whether the connection goes on. -/
def sendResponse (resp : Response Float) : Bytes × Bool :=
  match wire.response.toVec resp with
  | .error _ => ([], false)
  | .ok body =>
    if body.length > maxResponseFrame then
      match wire.response.toVec (.error (tooLarge body.length)) with
      | .error _ => ([], false)
      | .ok errBody =>
        match wire.send errBody with
        | .error _ => ([], false)
        | .ok out => (out, false)
    else
      match wire.send body with
      | .error _ => ([], false)
      | .ok out => (out, true)

end Wire

/-- What a connection wrote, whether it goes on, and what it asked the engine. -/
structure Served where
  out : Bytes := []
  live : Bool := true
  asked : List Request := []
  deriving DecidableEq, Repr

namespace Served

section Handle

variable (wire : Wire) (engine : Asked)

/-- The body of the loop in `handle_connection`, for one item of its stream of frames. -/
def handleFrame (asked : List Request) : Except String Bytes → Served
  | .error e =>
    let (out, _) := wire.sendResponse (.error s!"request rejected: {e}")
    { out, live := false, asked }
  | .ok body =>
    match decode wire.request body with
    | .error e =>
      let (out, live) := wire.sendResponse (.error e)
      { out, live, asked }
    | .ok req =>
      match engine asked.length req with
      | none => { live := false, asked := asked ++ [req] }
      | some resp =>
        let (out, live) := wire.sendResponse resp
        { out, live, asked := asked ++ [req] }

/-- One turn of the loop. -/
def handle (s : Served) (item : Except String Bytes) : Served :=
  if s.live then
    let turn := handleFrame wire engine s.asked item
    { turn with out := s.out ++ turn.out }
  else s

/-- The loop over all items. -/
def serve (items : List (Except String Bytes)) : Served := items.foldl (handle wire engine) {}

end Handle

end Served

/-- The daemon's end of a connection, between any two reads and writes. -/
structure Connection (wire : Wire) where
  reader : wire.requests.State := wire.requests.new
  /-- The client has closed its end. -/
  closed : Bool := false
  /-- What is left to write of a reply. -/
  unsent : Bytes := []
  live : Bool := true
  /-- A write failed, or the task was dropped. -/
  failed : Bool := false
  asked : List Request := []
  /-- All it read, and all it wrote. -/
  input : Bytes := []
  written : Bytes := []

namespace Connection

inductive Event where
  /-- The next chunk is read. -/
  | receive (chunk : Bytes)
  /-- The end of the client's stream is read. -/
  | close
  /-- `requests.next()` looks for the next request. -/
  | next
  /-- So many bytes of a reply are written. -/
  | write (n : ℕ)
  /-- A write fails. -/
  | fail

variable (wire : Wire) (engine : Asked)

/-- One event. A connection reads on when its last reply is written. -/
def step (c : Connection wire) : Event → Option (Connection wire)
  | .receive chunk =>
    if c.live ∧ c.unsent = [] ∧ c.closed = false then
      some { c with reader := wire.requests.receive c.reader chunk, input := c.input ++ chunk }
    else none
  | .close =>
    if c.live ∧ c.unsent = [] then some { c with closed := true } else none
  | .next =>
    if c.live ∧ c.unsent = [] then
      match wire.requests.next c.reader c.closed with
      | (reader, some item) =>
        let turn := Served.handleFrame wire engine c.asked item
        some { c with reader, unsent := turn.out, live := turn.live, asked := turn.asked }
      | (reader, none) => some { c with reader, live := !c.closed }
    else none
  | .write n =>
    some { c with unsent := c.unsent.drop n, written := c.written ++ c.unsent.take n }
  | .fail => some { c with unsent := [], live := false, failed := true }

/-- A run of events. -/
def run (events : List Event) : Option (Connection wire) := events.foldlM (step wire engine) {}

end Connection

end VmWatcher
