import VmWatcher.Daemon.Metrics
import VmWatcher.Ui.State

/-!
# The loop of the terminal interface (`vm-bandwidth/src/ui.rs`)

The loop draws, waits for an input, collects the trend fetches that have finished and polls
the daemon when a poll is due. Trend fetches run beside it and finish in any order; a
result carries the sequence number its fetch was begun with.
-/

namespace VmWatcher

open Ipc

/-! ### Keys -/

inductive KeyCode where
  | char (c : Char)
  | up
  | down
  | left
  | right
  | enter
  | esc
  | other
  deriving DecidableEq, Repr

structure KeyEvent where
  code : KeyCode
  control : Bool := false
  press : Bool := true
  deriving DecidableEq, Repr

inductive UiAction where
  | nothing
  | quit
  /-- Re-poll the daemon immediately. -/
  | refresh
  deriving DecidableEq, Repr

/-- `move_selection`. -/
def moveSelection (selected : Option ℕ) (len : ℕ) (delta : ℤ) : Option ℕ :=
  if len = 0 then none
  else some (min (max ((selected.getD 0 : ℤ) + delta) 0) ((len : ℤ) - 1)).toNat

namespace UiState

/-- The arms of `Up` and `Down`. -/
def moveRow (app : UiState) (delta : ℤ) : UiState :=
  match app.screen with
  | .overview =>
    let len := (app.status.map fun s => s.ranges.length).getD 0
    { app with overview := moveSelection app.overview len delta }
  | .detail =>
    let len := (app.detail.map fun d => d.ips.length).getD 0
    { app with detailTable := moveSelection app.detailTable len delta }
  | .trend => app

/-- The arm of `r`: on the trend screen the query is made again as well. -/
def refreshNow (app : UiState) : UiState × UiAction :=
  match app.screen with
  | .trend => ({ app with trend := app.trend.map fun v => { v with fetchedAt := none } }, .refresh)
  | _ => (app, .refresh)

/-- Another window or kind for the trend view, unless it is the same one. -/
def reselect (app : UiState) (v : TrendView) (win : TrendWindow) (kind : TrendKind) :
    UiState × UiAction :=
  if win ≠ v.win ∨ kind ≠ v.kind then
    ({ app with trend := some { v with win := win, kind := kind }.clearForNewSelection }, .refresh)
  else (app, .nothing)

/-- The arms of the trend screen that select a window or a kind. -/
def trendKey (app : UiState) (code : KeyCode) : UiState × UiAction :=
  match app.trend with
  | none => (app, .nothing)
  | some v =>
    match code with
    | .left => app.reselect v (windowAt (v.win + trendWindows.length - 1)) v.kind
    | .char '1' => app.reselect v (windowAt 0) v.kind
    | .char '2' => app.reselect v (windowAt 1) v.kind
    | .char '3' => app.reselect v (windowAt 2) v.kind
    | .char '4' => app.reselect v (windowAt 3) v.kind
    | .right => app.reselect v (windowAt (v.win + 1)) v.kind
    | .char 'b' => app.reselect v v.win .bandwidth
    | .char 'p' => app.reselect v v.win .packets
    | _ => (app, .nothing)

/-- Open the trend of a target. -/
def openTrend (app : UiState) (target : TrendTarget) : UiState × UiAction :=
  ({ app with trend := some (.opened target app.screen), screen := .trend }, .refresh)

/-- The arm of `Enter` on the overview. The aggregate IPv6 pseudo-range has no per-IP detail. -/
def openDetail (app : UiState) : UiState × UiAction :=
  match app.overview with
  | none => (app, .nothing)
  | some sel =>
    let name := app.status.bind fun s => s.ranges[sel]?.map RangeSummary.name
    if name = some ipv6RangeName then (app, .nothing)
    else
      ({ app with screen := .detail, detailIndex := some sel, detailTable := some 0 }, .refresh)

/-- The arm of `Enter` on the detail screen: the trend of the address in the selected row. -/
def openIpTrend (app : UiState) : UiState × UiAction :=
  let ip := app.detail.bind fun d =>
    app.detailTable.bind fun sel => (sortIps d.ips app.sort)[sel]?.map IpDetail.ip
  match ip with
  | none => (app, .nothing)
  | some ip => app.openTrend (.ip ip)

/-- The arm of `t`: the aggregated trend of a whole range. -/
def openRangeTrend (app : UiState) : UiState × UiAction :=
  let name := match app.screen with
    | .overview => app.overview.bind fun sel =>
      app.status.bind fun s => s.ranges[sel]?.map RangeSummary.name
    | _ => app.detail.map RangeDetail.name
  match name with
  | none => (app, .nothing)
  | some name => app.openTrend (.range name)

/-- The arm of `Esc`. -/
def leave (app : UiState) : UiState × UiAction :=
  match app.screen with
  | .detail => ({ app with screen := .overview, detail := none, detailIndex := none }, .nothing)
  | .trend =>
    let back := (app.trend.map TrendView.origin).getD .detail
    let app := { app with trend := none, screen := back }
    if back = .overview then ({ app with detail := none, detailIndex := none }, .refresh)
    else (app, .refresh)
  | .overview => (app, .nothing)

/-- The arms of `handle_key` for each key and screen. -/
def pressed (app : UiState) (code : KeyCode) : UiState × UiAction :=
  match code, app.screen with
  | .char 'q', _ => (app, .quit)
  | .char 'r', _ => app.refreshNow
  | .char 'h', .overview => ({ app with showHelp := true }, .nothing)
  | .up, _ => (app.moveRow (-1), .nothing)
  | .down, _ => (app.moveRow 1, .nothing)
  | code, .trend => if code = .esc then app.leave else app.trendKey code
  | .enter, .overview => app.openDetail
  | .enter, .detail => app.openIpTrend
  | .char 't', _ => app.openRangeTrend
  | .esc, _ => app.leave
  | .char 's', .detail => ({ app with sort := app.sort.next }, .nothing)
  | _, _ => (app, .nothing)

/-- `handle_key`. -/
def handleKey (app : UiState) (key : KeyEvent) : UiState × UiAction :=
  if !key.press then (app, .nothing)
  else if key.control && key.code = .char 'c' then (app, .quit)
  else if app.showHelp then ({ app with showHelp := false }, .nothing)
  else app.pressed key.code

end UiState

/-! ### Trend fetches -/

/-- A trend fetch under way. The selection it was begun for is not part of the request. -/
structure TrendFetch where
  seq : ℕ
  asked : Selection
  base : String
  rxQuery : String
  txQuery : String
  axis : TrendAxis

/-- `trend_rate_window`. -/
def trendRateWindow (baseSecs stepSecs : ℕ) : ℕ := max baseSecs stepSecs

/-- `trend_query`. -/
def trendQuery (target : TrendTarget) (metric : String) (rateWindow : ℕ) (scale : String) :
    String :=
  match target with
  | .ip ip => s!"sum(rate({metric}\x7bip=\"{ipv4Display ip}\"\x7d[{rateWindow}s])){scale}"
  | .range name =>
    s!"sum(rate({metric}\x7brange=\"{escapeLabel name}\"\x7d[{rateWindow}s])){scale}"

/-- The metrics of a kind, received and sent, and the factor to its unit. -/
def TrendKind.metrics : TrendKind → String × String × String
  | .bandwidth => ("vmbw_rx_bytes_total", "vmbw_tx_bytes_total", " * 8")
  | .packets => ("vmbw_rx_packets_total", "vmbw_tx_packets_total", "")

/-- `fetch_trend`, at an instant and a wall clock in seconds. -/
def fetchTrend (app : UiState) (now : ℕ) (wall : ℤ) : UiState × Option TrendFetch :=
  match app.trend with
  | none => (app, none)
  | some v =>
    let v := { v with fetchedAt := some now, error := none }
    if !app.metricsEnabled then
      let error := "metrics disabled: set [metrics] enabled = true in config.toml and restart"
      ({ app with trend := some { v with error := some error } }, none)
    else
      let window := trendWindows[v.win]
      let span := window.2.1
      let step := window.2.2
      let (rxMetric, txMetric, scale) := v.kind.metrics
      let rateWindow := trendRateWindow app.rateWindowSecs step
      ({ app with trend := some v, trendSeq := app.trendSeq + 1 },
        some {
          seq := app.trendSeq + 1
          asked := v.selection
          base := app.metricsUrl
          rxQuery := trendQuery v.target rxMetric rateWindow scale
          txQuery := trendQuery v.target txMetric rateWindow scale
          axis := ⟨wall - span, wall, step⟩ })

/-- What `fetch_pair` makes of the two series, or of the error, that came back. -/
def TrendFetch.result (f : TrendFetch) (answer : Except String (Series × Series)) :
    Except String TrendData :=
  answer.map fun series => ⟨series.1, series.2, f.axis, f.asked⟩

/-- Take one result off the channel: those of superseded fetches are dropped. -/
def UiState.collect (app : UiState) (seq : ℕ) (res : Except String TrendData) : UiState :=
  if seq = app.trendSeq then
    { app with trend := app.trend.map fun v =>
        match res with
        | .ok d => { v with data := some d, error := none }
        | .error e => { v with data := none, error := some e } }
  else app

/-! ### Polling the daemon -/

/-- What the daemon answers to one poll. -/
structure Answers where
  /-- Whether a connection could be opened. -/
  connects : Bool
  overview : Except String (Response Float)
  detail : Except String (Response Float)

/-- The overview request of `poll`: whether the client is kept, and whether to go on. -/
def UiState.pollOverview (app : UiState) : Except String (Response Float) → Bool × UiState
  | .ok (.status s) =>
    let note :=
      if s.protocolVersion = 0 then some "daemon predates protocol versioning (legacy)"
      else if s.protocolVersion > protocolVersion then
        some (s!"daemon protocol v{s.protocolVersion} is newer than this UI " ++
          s!"(v{protocolVersion}) — upgrade the UI")
      else none
    (true, { app with bridge := s.bridge, protocolNote := note, status := some s, error := none })
  | .ok _ => (false, { app with error := some "unexpected reply to Overview; reconnecting" })
  | .error e => (false, { app with error := some e })

/-- The detail request of `poll` for a range: whether the client is kept. -/
def UiState.pollDetail (app : UiState) (idx : ℕ) :
    Except String (Response Float) → Bool × UiState
  | .ok (.rangeDetail d) => (true, { app with detail := some d, detailIndex := some idx })
  | .ok (.error message) => (true, { app with detail := none, error := some message })
  | .ok _ =>
    (false, { app with
      detail := none
      error := some "unexpected reply to RangeDetail; reconnecting" })
  | .error e => (false, { app with detail := none, error := some e })

/-- Whether `poll` fetches the trend: it shows and its last fetch is half a minute old. -/
def UiState.trendStale (app : UiState) (now : ℕ) : Bool :=
  app.screen = .trend &&
    ((app.trend.bind TrendView.fetchedAt).map fun t => decide (now - t > 30 * nsPerSec)).getD true

/-- `poll`, after the trend: whether there is a client afterwards. -/
def UiState.pollDaemon (app : UiState) (client : Bool) (answers : Answers) : Bool × UiState :=
  let app := if !client && answers.connects then { app with error := none } else app
  if !(client || answers.connects) then
    (false, { app with error := some "daemon not reachable", status := none, detail := none })
  else
    let (client, app) := app.pollOverview answers.overview
    if !client || app.screen ≠ .detail then (client, app)
    else
      match app.detailIndex.or app.overview with
      | none => (client, app)
      | some idx => app.pollDetail idx answers.detail

/-- `poll`. -/
def poll (client : Bool) (app : UiState) (now : ℕ) (wall : ℤ) (answers : Answers) :
    Bool × UiState × Option TrendFetch :=
  let (app, fetch) := if app.trendStale now then fetchTrend app now wall else (app, none)
  let (client, app) := app.pollDaemon client answers
  (client, app, fetch)

/-! ### The loop -/

/-- `REFRESH`. -/
def uiRefresh : ℕ := nsPerSec

/-- Where the loop is. -/
inductive UiPhase where
  | drawing
  | waiting
  | collecting
  | polling
  | stopped
  deriving DecidableEq, Repr

/-- What `recv_timeout` returns. -/
inductive UiInput where
  | key (key : KeyEvent)
  | otherEvent
  | timeout
  | disconnected
  deriving DecidableEq, Repr

/-- The loop, the trend fetches beside it and the channel of their results. -/
structure UiLoop where
  app : UiState
  /-- Whether there is a connection to the daemon. -/
  client : Bool
  nextPoll : ℕ
  clock : ℕ
  phase : UiPhase
  inFlight : List TrendFetch
  channel : List (ℕ × Except String TrendData)
  /-- What the latest fetch was begun for. Nothing in the code reads it. -/
  begun : Option Selection

inductive UiEvent where
  | draw
  | input (input : UiInput) (now : ℕ)
  /-- One result is taken off the channel. -/
  | collect
  /-- The channel is empty. -/
  | drained
  | poll (now : ℕ) (wall : ℤ) (answers : Answers) (later : ℕ)
  /-- A fetch finishes. -/
  | finish (index : ℕ) (answer : Except String (Series × Series))

namespace UiLoop

/-- One input and what the loop makes of the action. -/
def onInput (s : UiLoop) (input : UiInput) (now : ℕ) : UiLoop :=
  let (app, action) := match input with
    | .key key => s.app.handleKey key
    | .otherEvent => (s.app, .nothing)
    | .timeout => (s.app, .nothing)
    | .disconnected => (s.app, .quit)
  match action with
  | .quit => { s with app := app, clock := now, phase := .stopped }
  | .refresh => { s with app := app, clock := now, phase := .collecting, nextPoll := now }
  | .nothing => { s with app := app, clock := now, phase := .collecting }

/-- A poll, with the fetch it begins. -/
def onPoll (s : UiLoop) (now : ℕ) (wall : ℤ) (answers : Answers) (later : ℕ) : UiLoop :=
  let (client, app, fetch) := VmWatcher.poll s.client s.app now wall answers
  { s with
    app := app
    client := client
    nextPoll := later + uiRefresh
    clock := later
    phase := .drawing
    inFlight := s.inFlight ++ fetch.toList
    begun := (fetch.map TrendFetch.asked).or s.begun }

/-- One step of the loop or of a fetch beside it. -/
def step (s : UiLoop) : UiEvent → Option UiLoop
  | .draw =>
    if s.phase = .drawing then some { s with app := VmWatcher.draw s.app, phase := .waiting }
    else none
  | .input input now =>
    if s.phase = .waiting ∧ s.clock ≤ now then some (s.onInput input now) else none
  | .collect =>
    if s.phase = .collecting then
      match s.channel with
      | [] => none
      | r :: rest => some { s with app := s.app.collect r.1 r.2, channel := rest }
    else none
  | .drained =>
    if s.phase = .collecting ∧ s.channel.isEmpty then some { s with phase := .polling } else none
  | .poll now wall answers later =>
    if s.phase = .polling ∧ s.clock ≤ now ∧ now ≤ later then
      if now ≥ s.nextPoll then some (s.onPoll now wall answers later)
      else some { s with clock := now, phase := .drawing }
    else none
  | .finish index answer =>
    match s.inFlight[index]? with
    | none => none
    | some f => some { s with
        inFlight := s.inFlight.eraseIdx index
        channel := s.channel ++ [(f.seq, f.result answer)] }

end UiLoop

/-- The state `run_ui` sets up: the configuration, if it could be read, and how the first
connection went. -/
def startState (cfg : Option ValidatedConfig) (connected : Except String Unit) : UiState :=
  let app := UiState.new "br0" ((cfg.map ValidatedConfig.defaultSort).getD .ip)
  let app := match cfg with
    | some cfg => { app with
        metricsEnabled := cfg.metricsEnabled
        metricsUrl := cfg.metricsUrl
        rateWindowSecs := max (cfg.metricsPushIntervalSecs * 2) 120 }
    | none => { app with
        metricsEnabled := false
        configWarning :=
          some "config unreadable: trend screen disabled (daemon data still shown)" }
  match connected with
  | .ok () => app
  | .error e => { app with error := some e }

/-- `run_ui` up to its loop. -/
def startUi (cfg : Option ValidatedConfig) (connected : Except String Unit) (now : ℕ) (wall : ℤ)
    (answers : Answers) : UiLoop :=
  let client := connected.toBool
  let (client, app, fetch) := poll client (startState cfg connected) now wall answers
  ⟨app, client, now + uiRefresh, now, .drawing, fetch.toList, [], fetch.map TrendFetch.asked⟩

end VmWatcher
