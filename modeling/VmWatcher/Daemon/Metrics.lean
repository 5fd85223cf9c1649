import VmWatcher.Core.IpRange
import VmWatcher.Daemon.Collector

/-!
# The metrics payload (`vm-bandwidth/src/metrics.rs`)

The daemon pushes cumulative per-address counters in the Prometheus text format. The keys
of the map that is rendered come in the order its iterator yields them.
-/

namespace VmWatcher

/-- `escape_label`: escape a label value. -/
def escapeLabel (v : String) : String :=
  v.toList.foldl (fun out c =>
    match c with
    | '\\' => out ++ "\\\\"
    | '"' => out ++ "\\\""
    | '\n' => out ++ "\\n"
    | other => out.push other) ""

/-- The line of one counter of an address. -/
def promLine (name addr range : String) (value : ℕ) (nowMs : ℤ) : String :=
  name ++ s!"\x7bip=\"{addr}\",range=\"{range}\"\x7d {value} {nowMs}\n"

/-- The series `render_prom_lines` renders for an address. -/
def IpTotals.series (t : IpTotals) : List (String × ℕ) :=
  [("vmbw_rx_bytes_total", t.rxBytes),
    ("vmbw_tx_bytes_total", t.txBytes),
    ("vmbw_rx_packets_total", t.rxPackets),
    ("vmbw_tx_packets_total", t.txPackets)]

/-- `render_prom_lines`: addresses without any traffic are skipped. -/
def renderPromLines (totals : Table UInt32 IpTotals) (rangeName : UInt32 → String) (nowMs : ℤ)
    (keys : List UInt32) : String :=
  (keys.insertionSort (· ≤ ·)).foldl (fun out ip =>
    match totals ip with
    | none => out
    | some t =>
      if t.rxBytes ||| t.txBytes ||| t.rxPackets ||| t.txPackets = 0 then out
      else
        let addr := ipv4Display ip
        let range := escapeLabel (rangeName ip)
        t.series.foldl (fun out s => out ++ promLine s.1 addr range s.2 nowMs) out) ""

/-- The series `render_prom_lines_policer` renders for an address. -/
def PolicerIpTotals.series (t : PolicerIpTotals) : List (String × ℕ) :=
  [("vmbw_policer_rx_passed_bytes_total", t.rxPassedBytes),
    ("vmbw_policer_tx_passed_bytes_total", t.txPassedBytes),
    ("vmbw_policer_rx_passed_packets_total", t.rxPassedPackets),
    ("vmbw_policer_tx_passed_packets_total", t.txPassedPackets),
    ("vmbw_policer_rx_dropped_bytes_total", t.rxDroppedBytes),
    ("vmbw_policer_tx_dropped_bytes_total", t.txDroppedBytes),
    ("vmbw_policer_rx_dropped_packets_total", t.rxDroppedPackets),
    ("vmbw_policer_tx_dropped_packets_total", t.txDroppedPackets)]

/-- `render_prom_lines_policer`: each counter that is zero is skipped. -/
def renderPromLinesPolicer (totals : Table UInt32 PolicerIpTotals) (rangeName : UInt32 → String)
    (nowMs : ℤ) (keys : List UInt32) : String :=
  (keys.insertionSort (· ≤ ·)).foldl (fun out ip =>
    match totals ip with
    | none => out
    | some t =>
      let addr := ipv4Display ip
      let range := escapeLabel (rangeName ip)
      t.series.foldl (fun out s =>
        if s.2 = 0 then out else out ++ promLine s.1 addr range s.2 nowMs) out) ""

/-- `render_prom_lines_oversized`: a direction without such packets is skipped. -/
def renderPromLinesOversized (oversized : OversizedStats × OversizedStats) (nowMs : ℤ) :
    String :=
  [("rx", oversized.1), ("tx", oversized.2)].foldl (fun out (dir, stats) =>
    if stats.packets ||| stats.bytes = 0 then out
    else
      let packets := stats.packets
      let bytes := stats.bytes
      out ++ s!"vmbw_oversized_{dir}_packets_total {packets} {nowMs}\n" ++
        s!"vmbw_oversized_{dir}_bytes_total {bytes} {nowMs}\n") ""

end VmWatcher
