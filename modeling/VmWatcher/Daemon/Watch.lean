import VmWatcher.Daemon.Runs

/-!
# Hot reload (`vm-bandwidth/src/daemon.rs`)

A file that is saved reaches the engine by way of the debouncer, the watcher thread and a
bounded channel; SIGHUP and the comparison at startup use the channel too, but do not wait
for room in it. The engine reads the file when it handles the message, not before.
-/

namespace VmWatcher

open OpProg

/-! ### The watcher thread -/

/-- `WatchMsg`. -/
inductive WatchMsg where
  | reload
  | error (e : String)
  deriving DecidableEq, Repr

/-- The kinds of `notify` events, as far as `spawn_watcher` tells them apart. -/
inductive EventKind where
  | any
  | accessCloseWrite
  | accessOther
  | createFile
  | createAny
  | createOther
  | modifyData
  | modifyName
  | modifyOther
  | remove
  | other
  deriving DecidableEq, Repr

/-- Reads, metadata touches and deletions are no content changes. -/
def EventKind.contentChange : EventKind → Bool
  | modifyData | modifyName | createFile | createAny | accessCloseWrite => true
  | _ => false

/-- An event and the file names of its paths. -/
structure FileEvent where
  kind : EventKind
  names : List (Option String)
  deriving DecidableEq, Repr

def FileEvent.relevant (target : String) (e : FileEvent) : Bool :=
  e.kind.contentChange && e.names.any fun name => (name.map (· == target)).getD false

/-- `DebounceEventResult`. -/
abbrev Batch := Except (List String) (List FileEvent)

/-- What the watcher thread sends for a batch. -/
def watchMsg (target : String) : Batch → Option WatchMsg
  | .error errs => some (.error ("; ".intercalate errs))
  | .ok events => if events.any (·.relevant target) then some .reload else none

/-! ### From the file to the engine -/

/-- How far `run_daemon` has come. -/
inductive BootPhase where
  /-- The first configuration is in force, the file is not watched yet. -/
  | booting
  /-- The watch was tried, the file is not compared yet. -/
  | watched
  | running
  deriving DecidableEq, Repr

/-- The daemon, its file and what is under way between them. -/
structure Watched where
  node : Node
  phase : BootPhase
  /-- What reading the file gives. -/
  file : Except String ByteArray
  /-- The debouncer watches the file. -/
  watching : Bool
  /-- The file was saved, and no batch has told of it yet. -/
  unreported : Bool
  /-- What the debouncer has handed over and the watcher thread has not taken. -/
  batches : List Batch
  /-- The message the watcher thread is sending. -/
  sending : Option WatchMsg
  /-- The channel to the engine loop. -/
  channel : List WatchMsg
  /-- The file was saved, or SIGHUP came, since the engine last read the file. -/
  due : Bool

/-- The capacity of the channel to the engine loop. -/
def watchChannelCapacity : ℕ := 8

/-- `try_send`: a message for which there is no room is dropped. -/
def trySend (msg : WatchMsg) (channel : List WatchMsg) : List WatchMsg :=
  if channel.length < watchChannelCapacity then channel ++ [msg] else channel

namespace Watched

section Steps

variable (p : Parsers) (path target : String) (reaches : RollingWindow → ℕ → Bool)
variable (host : ByteOrder)

/-- The comparison once the watch is live: whether the file has moved on since it was parsed. -/
def movedOn (s : Watched) : Bool :=
  match s.file with
  | .ok bytes => decide (bytes ≠ s.node.daemon.lastConfigBytes)
  | .error _ => false

/-- What moves a message on towards the engine, and the engine receiving it. -/
inductive Drain : Watched → Watched → Prop where
  /-- The watcher thread takes a batch. -/
  | take {s : Watched} {batch : Batch} {batches : List Batch} :
      s.sending = none → s.batches = batch :: batches →
      Drain s { s with batches, sending := watchMsg target batch }
  /-- `blocking_send`, which waits for room. -/
  | send {s : Watched} {msg : WatchMsg} :
      s.sending = some msg → s.channel.length < watchChannelCapacity →
      Drain s { s with sending := none, channel := s.channel ++ [msg] }
  /-- A reload that applies nothing. -/
  | ignore {s : Watched} {channel : List WatchMsg} {node : Node} {env : ReloadInputs}
      {evs : List (Event MapOp AnyError Dataplane)} :
      s.phase = .running → s.channel = .reload :: channel →
      env.Fits p path s.node.daemon → env.read = s.file →
      RunsAmid (Dataplane.Packet host) MapOp.exec (s.node.daemon.reloadFile p path env)
        s.node.maps evs (node.daemon, false) node.maps →
      Drain s { s with node, channel, due := false }
  /-- A reload that applies the file and then collects. -/
  | reload {s : Watched} {channel : List WatchMsg} {mid node : Node} {env : ReloadInputs}
      {evs : List (Event MapOp AnyError Dataplane)} :
      s.phase = .running → s.channel = .reload :: channel →
      env.Fits p path s.node.daemon → env.read = s.file →
      RunsAmid (Dataplane.Packet host) MapOp.exec (s.node.daemon.reloadFile p path env)
        s.node.maps evs (mid.daemon, true) mid.maps →
      mid.Collects reaches host node → Drain s { s with node, channel, due := false }
  | error {s : Watched} {channel : List WatchMsg} {e : String} :
      s.phase = .running → s.channel = .error e :: channel →
      Drain s { s with
        node := { s.node with daemon := s.node.daemon.recordWatcherError e }, channel }

/-- What may happen next. -/
inductive Step : Watched → Watched → Prop where
  | packet {s : Watched} {maps : Dataplane} :
      s.node.maps.Packet host maps → Step s { s with node := { s.node with maps } }
  | collect {s : Watched} {node : Node} :
      s.phase = .running → s.node.Collects reaches host node → Step s { s with node }
  | rescan {s : Watched} (scan : Option (ℕ × ℕ)) : s.phase = .running →
      Step s { s with node := { s.node with daemon := s.node.daemon.rescanTaps scan } }
  /-- The file is written or replaced. -/
  | save {s : Watched} (bytes : ByteArray) :
      Step s { s with file := .ok bytes, unreported := s.unreported || s.watching, due := true }
  /-- The file is removed. -/
  | remove {s : Watched} (e : String) : Step s { s with file := .error e }
  | watch {s : Watched} : s.phase = .booting → Step s { s with phase := .watched, watching := true }
  /-- The watcher cannot start. -/
  | unwatched {s : Watched} (e : String) : s.phase = .booting →
      Step s { s with
        phase := .watched
        node := { s.node with daemon := s.node.daemon.recordWatcherError e } }
  | compare {s : Watched} : s.phase = .watched →
      Step s { s with
        phase := .running
        channel := if s.movedOn then trySend .reload s.channel else s.channel
        due := s.movedOn }
  /-- The debouncer hands over a batch. Changes may be merged in it, and it may be about other
  files or no content change at all. -/
  | deliver {s : Watched} (batch : Batch) : s.watching = true →
      Step s { s with
        batches := s.batches ++ [batch]
        unreported := s.unreported && !(watchMsg target batch).isSome }
  | sighup {s : Watched} : s.phase = .running →
      Step s { s with channel := trySend .reload s.channel, due := true }
  | drain {s s' : Watched} : Drain p path target reaches host s s' → Step s s'

/-- What a daemon that was started on empty maps and its file go through. -/
inductive Reachable : Watched → Prop where
  | start {env : StartInputs} {evs : List (Event MapOp AnyError Dataplane)} {node : Node} :
      Runs MapOp.exec (Daemon.start p path env) Dataplane.empty evs (.ok node.daemon) node.maps →
      Reachable ⟨node, .booting, env.read, false, false, [], none, [], false⟩
  | step {s s' : Watched} : Reachable s → Step p path target reaches host s s' → Reachable s'

end Steps

end Watched

end VmWatcher
