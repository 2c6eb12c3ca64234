import Mathlib.Data.NNRat.Defs
import Mathlib.Data.List.Infix
import HarnessSphere.Collectors.Container

/-! # The collectors of the machine

What they read is one view of the operating system, taken when it is refreshed. Loads are shares of one
core in percent and never negative; a process is found by its number.
-/

namespace HarnessSphere

/-- `exe` is the name of the executable as `to_string_lossy` gives it. -/
structure ProcessStat where
  exe : String
  cpuUsage : ℚ≥0
  memory : UInt64
  virtualMemory : UInt64

/-- What `sysinfo` shows after a refresh. -/
structure Sysinfo where
  globalCpuUsage : ℚ≥0
  totalMemory : UInt64
  usedMemory : UInt64
  freeMemory : UInt64
  availableMemory : UInt64
  totalSwap : UInt64
  usedSwap : UInt64
  processes : Table UInt32 ProcessStat

def percent (load : ℚ≥0) : F64 := (load : ℚ) / 100

theorem percent_nonneg (load : ℚ≥0) : 0 ≤ percent load :=
  div_nonneg load.2 (Nat.ofNat_nonneg _)

structure HostCollector where
  descriptor : SourceDescriptor

namespace HostCollector

def new (interval : Duration) : HostCollector := ⟨⟨"host", .host, .critical, interval⟩⟩

variable (sys : Sysinfo)

def probe : ProbeResult :=
  if sys.totalMemory = 0 then .fatal "could not read host memory" else .ready

/-- Where there is nothing to share, no share is emitted. -/
def collect : List Signal × Except CollectError Unit :=
  ([(Metric.now "system.cpu.utilization" .gauge (percent sys.globalCpuUsage)).intoSignal] ++
    ([("used", sys.usedMemory), ("free", sys.freeMemory), ("available", sys.availableMemory)].map
      fun (state, bytes) =>
        (((Metric.now "system.memory.usage" .upDownCounter (asF64 bytes)).withUnit "By").attr
          "system.memory.state" (.str state)).intoSignal) ++
    (if 0 < sys.totalMemory then
      [((Metric.now "system.memory.utilization" .gauge
        (asF64 sys.usedMemory / asF64 sys.totalMemory)).attr
          "system.memory.state" (.str "used")).intoSignal]
    else []) ++
    [(((Metric.now "system.paging.usage" .upDownCounter (asF64 sys.usedSwap)).withUnit "By").attr
      "system.paging.state" (.str "used")).intoSignal] ++
    (if 0 < sys.totalSwap then
      [(Metric.now "system.paging.utilization" .gauge
        (asF64 sys.usedSwap / asF64 sys.totalSwap)).intoSignal]
    else []),
    .ok ())

end HostCollector

/-- The metrics of one process; the tag says which process. -/
def processSignals (tag : Metric → Metric) (stat : ProcessStat) : List Signal :=
  [(tag (.now "process.cpu.utilization" .gauge (percent stat.cpuUsage))).intoSignal,
    (tag ((Metric.now "process.memory.usage" .upDownCounter (asF64 stat.memory)).withUnit
      "By")).intoSignal,
    (tag ((Metric.now "process.memory.virtual" .upDownCounter (asF64 stat.virtualMemory)).withUnit
      "By")).intoSignal]

structure SelfCollector where
  descriptor : SourceDescriptor
  pid : UInt32

namespace SelfCollector

/-- The watcher's own metrics go by its name, so that none is without one. -/
def tag (m : Metric) : Metric := m.attr "process.executable.name" (.str "harnesssphere")

def new (pid : Except String UInt32) (interval : Duration) : Except String SelfCollector :=
  match pid with
  | .error e => .error ("current pid unavailable: " ++ e)
  | .ok pid => .ok ⟨⟨"self", .watcher, .critical, interval⟩, pid⟩

theorem descriptor_of_new {pid : Except String UInt32} {interval : Duration} {c : SelfCollector}
    (h : new pid interval = .ok c) : c.descriptor = ⟨"self", .watcher, .critical, interval⟩ := by
  cases pid with
  | error e => cases h
  | ok pid =>
    cases h
    rfl

variable (sys : Sysinfo) (c : SelfCollector)

def probe : ProbeResult :=
  if c.pid ∈ sys.processes then .ready else .fatal "could not inspect own process"

def collect : List Signal × Except CollectError Unit :=
  match sys.processes.lookup c.pid with
  | none => ([], .error (.failed "own process disappeared"))
  | some stat => (processSignals tag stat, .ok ())

end SelfCollector

/-- `names` are looked for in the names of the executables. -/
structure ProcessCollector where
  descriptor : SourceDescriptor
  names : List String

namespace ProcessCollector

def new (names : List String) (interval : Duration) : ProcessCollector :=
  ⟨⟨"process", .host, .optional, interval⟩, names⟩

variable (sys : Sysinfo) (c : ProcessCollector)

def probe : ProbeResult := if c.names.isEmpty then .notApplicable else .ready

def tag (pid : UInt32) (stat : ProcessStat) (m : Metric) : Metric :=
  (m.attr "process.executable.name" (.str stat.exe)).attr "process.pid" (.int pid.toNat)

def watches (exe : String) : Bool := c.names.any fun name => name.toList <:+: exe.toList

def collect : List Signal × Except CollectError Unit :=
  (sys.processes.entries.flatMap fun ⟨pid, stat⟩ =>
    if !c.watches stat.exe then [] else processSignals (tag pid stat) stat,
    .ok ())

end ProcessCollector

end HarnessSphere
