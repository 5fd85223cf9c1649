import VmWatcher.Core.Config
import VmWatcher.Core.Ipc
import VmWatcher.Ebpf.Policers

/-!
# The state of the terminal interface (`vm-bandwidth/src/tui.rs`)

Instants are nanoseconds.
-/

namespace VmWatcher

open Ipc

/-! ### The trend screen -/

inductive Screen where
  | overview
  | detail
  /-- Historical trend for one IP or a whole range. -/
  | trend
  deriving DecidableEq, Repr

/-- `TREND_WINDOWS`: label, span and query step in seconds. -/
def trendWindows : List (String × ℕ × ℕ) :=
  [("1h", 3600, 60), ("24h", 86400, 900), ("7d", 7 * 86400, 3600), ("30d", 30 * 86400, 10800)]

/-- An index into `TREND_WINDOWS`. -/
abbrev TrendWindow := Fin trendWindows.length

theorem trendWindows_length_pos : 0 < trendWindows.length := by decide

/-- The window at an index, counted round. -/
def windowAt (index : ℕ) : TrendWindow :=
  ⟨index % trendWindows.length, Nat.mod_lt index trendWindows_length_pos⟩

inductive TrendKind where
  | bandwidth
  | packets
  deriving DecidableEq, Repr

/-- What the trend screen shows: one IP or a whole IP range aggregated. -/
inductive TrendTarget where
  | ip (ip : UInt32)
  | range (name : String)
  deriving DecidableEq, Repr

/-- What a trend is about. -/
structure Selection where
  target : TrendTarget
  win : TrendWindow
  kind : TrendKind
  deriving DecidableEq, Repr

/-- One fetched trend: per-direction (timestamp seconds, value) points. -/
abbrev Series := List (ℤ × Float)

/-- Time axis of a fetched trend. -/
structure TrendAxis where
  start : ℤ
  stop : ℤ
  step : ℕ
  deriving DecidableEq, Repr

/-- Fetched points. The code does not keep what they were asked for. -/
structure TrendData where
  rx : Series
  tx : Series
  axis : TrendAxis
  asked : Selection

structure TrendView where
  target : TrendTarget
  /-- Screen that Esc returns to. -/
  origin : Screen
  win : TrendWindow
  kind : TrendKind
  data : Option TrendData
  fetchedAt : Option ℕ
  error : Option String

namespace TrendView

def selection (v : TrendView) : Selection := ⟨v.target, v.win, v.kind⟩

/-- `clear_for_new_selection`. -/
def clearForNewSelection (v : TrendView) : TrendView :=
  { v with data := none, error := none, fetchedAt := none }

/-- The view `handle_key` opens for a target. -/
def opened (target : TrendTarget) (origin : Screen) : TrendView :=
  ⟨target, origin, windowAt 0, .bandwidth, none, none, none⟩

end TrendView

/-- Everything the UI needs to render one frame, with the selected row of each table. -/
structure UiState where
  bridge : String
  status : Option Status
  detail : Option (RangeDetail Float)
  /-- Range index the current detail view was requested for. -/
  detailIndex : Option ℕ
  error : Option String
  configWarning : Option String
  protocolNote : Option String
  screen : Screen
  overview : Option ℕ
  detailTable : Option ℕ
  sort : SortMode
  showHelp : Bool
  trend : Option TrendView
  /-- Sequence of the latest trend fetch. It is a `u64` in the code: it goes up by one with a
  fetch, and a run of less than `2 ^ 64` fetches cannot bring it round. -/
  trendSeq : ℕ
  metricsEnabled : Bool
  metricsUrl : String
  rateWindowSecs : ℕ

/-- `UiState::new`. -/
def UiState.new (bridge : String) (sort : SortMode) : UiState where
  bridge := bridge
  status := none
  detail := none
  detailIndex := none
  error := none
  configWarning := none
  protocolNote := none
  screen := .overview
  overview := none
  detailTable := none
  sort := sort
  showHelp := false
  trend := none
  trendSeq := 0
  metricsEnabled := false
  metricsUrl := ""
  rateWindowSecs := 120

/-! ### Tables -/

/-- `SortMode::next`. -/
def SortMode.next : SortMode → SortMode
  | .ip => .rx
  | .rx => .tx
  | .tx => .total
  | .total => .ip

/-- Descending rates, equal ones and those that do not compare by address. -/
def rateThenIp (rate : IpDetail Float → Float) (a b : IpDetail Float) : Bool :=
  if rate b < rate a then true else if rate a < rate b then false else a.ip ≤ b.ip

/-- `sort_ips`. -/
def sortIps (ips : List (IpDetail Float)) : SortMode → List (IpDetail Float)
  | .ip => ips.mergeSort fun a b => a.ip ≤ b.ip
  | .rx => ips.mergeSort (rateThenIp (·.rxBps))
  | .tx => ips.mergeSort (rateThenIp (·.txBps))
  | .total => ips.mergeSort (rateThenIp fun i => i.rxBps + i.txBps)

/-- `clamp_selection`. -/
def clampSelection (selected : Option ℕ) (len : ℕ) : Option ℕ :=
  if len = 0 then none else some ((selected.map (min · (len - 1))).getD 0)

/-- `draw`, which keeps the selected rows within their tables. -/
def draw (app : UiState) : UiState :=
  match app.screen with
  | .overview =>
    match app.status with
    | none => app
    | some s => { app with overview := clampSelection app.overview s.ranges.length }
  | .detail =>
    match app.detail with
    | none => app
    | some d => { app with detailTable := clampSelection app.detailTable d.ips.length }
  | .trend => app

end VmWatcher
