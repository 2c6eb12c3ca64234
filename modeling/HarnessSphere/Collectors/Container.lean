import HarnessSphere.Library.Table
import HarnessSphere.Domain.Ports
import HarnessSphere.Collectors.Text

/-! # The container collector

It reads five files of a cgroup v2 directory afresh at each collection and keeps nothing. What it
reads of CPU time, throttling, OOM kills and I/O are totals since the cgroup was created, and it emits
them as counters.
-/

namespace HarnessSphere

/-- `str::parse::<u64>`: one plus sign may come first, then digits only. -/
def u64FromStr (text : List Char) : Option UInt64 :=
  let digits := match text with
    | '+' :: rest => rest
    | _ => text
  if digits = [] ∨ ¬ digits.all Char.isDigit then none
  else
    let n := digits.foldl (fun n c => 10 * n + (c.toNat - '0'.toNat)) 0
    if n < 2 ^ 64 then some (UInt64.ofNat n) else none

def splitWhitespace (text : List Char) : List (List Char) :=
  (text.splitOnP isWhitespace).filter (· ≠ [])

def stripPrefix (start text : List Char) : Option (List Char) :=
  if start.isPrefixOf text then some (text.drop start.length) else none

def parseU64 (content : List Char) : Option UInt64 := u64FromStr (trim content)

/-- An integer, or the literal `max` for no limit. -/
def parseMemMax (content : List Char) : Option UInt64 :=
  if trim content = "max".toList then none else u64FromStr (trim content)

/-- Lines of `key value`; of two lines with one key the later counts. -/
def parseKvLines (content : List Char) : Table String UInt64 :=
  (lines content).foldl (fun table line =>
    match splitWhitespace line with
    | k :: v :: _ =>
      match u64FromStr v with
      | some n => table.insert (String.ofList k) n
      | none => table
    | _ => table) ∅

/-- The sums of `rbytes=` and `wbytes=` across all devices. -/
def parseIoStat (content : List Char) : UInt64 × UInt64 :=
  ((lines content).flatMap splitWhitespace).foldl (fun (r, w) field =>
    match stripPrefix "rbytes=".toList field, stripPrefix "wbytes=".toList field with
    | some v, _ => (r + (u64FromStr v).getD 0, w)
    | none, some v => (r, w + (u64FromStr v).getD 0)
    | none, none => (r, w)) (0, 0)

/-- `as f64`, taken as exact. -/
def asF64 (n : UInt64) : F64 := n.toNat

structure ContainerCollector where
  descriptor : SourceDescriptor
  cgroup : Path
  containerId : String
  deriving DecidableEq, Repr

namespace ContainerCollector

/-- An empty id falls back to the name of the cgroup's directory, which is UTF-8: the path is made from
a `String`. -/
def new (cgroup : Path) (containerId : String) (interval : Duration) : ContainerCollector where
  descriptor := ⟨"container", .harness, .optional, interval⟩
  cgroup := cgroup
  containerId :=
    if containerId = "" then
      match cgroup.fileName with
      | some name => (OsString.toStr name).getD "\uFFFD"
      | none => "container"
    else containerId

variable (fs : Fs) (c : ContainerCollector)

def read (file : String) : Option (List Char) := fs.readToString (c.cgroup.join file)

def probe : ProbeResult :=
  if fs.isFile (c.cgroup.join "memory.current") then .ready
  else .unavailable ("no cgroup v2 at " ++ c.cgroup.display ++ " (memory.current missing)")

def memory (used : UInt64) : List Signal :=
  [(((Metric.now "container.memory.usage" .upDownCounter (asF64 used)).withUnit "By").attr
    "container.id" (.str c.containerId)).intoSignal]

def memoryMax : List Signal :=
  match (c.read fs "memory.max").bind parseMemMax with
  | none => []
  | some limit =>
    [(((Metric.now "harnesssphere.container.memory.limit" .gauge (asF64 limit)).withUnit "By").attr
      "container.id" (.str c.containerId)).intoSignal]

def memoryEvents : List Signal :=
  match (c.read fs "memory.events").map parseKvLines with
  | none => []
  | some ev =>
    match ev.lookup "oom_kill" with
    | none => []
    | some oom =>
      [((Metric.now "harnesssphere.container.memory.oom" .counter (asF64 oom)).attr
        "container.id" (.str c.containerId)).intoSignal]

def cpuStat : List Signal :=
  match (c.read fs "cpu.stat").map parseKvLines with
  | none => []
  | some cpu =>
    (match cpu.lookup "usage_usec" with
      | none => []
      | some usec =>
        [(((Metric.now "container.cpu.time" .counter (asF64 usec / 1000000)).withUnit "s").attr
          "container.id" (.str c.containerId)).intoSignal]) ++
    (match cpu.lookup "throttled_usec" with
      | none => []
      | some thr =>
        [(((Metric.now "harnesssphere.container.cpu.throttled" .counter
          (asF64 thr / 1000000)).withUnit "s").attr "container.id" (.str c.containerId)).intoSignal])

def ioStat : List Signal :=
  match (c.read fs "io.stat").map parseIoStat with
  | none => []
  | some (rbytes, wbytes) =>
    [((((Metric.now "container.disk.io" .counter (asF64 rbytes)).withUnit "By").attr
        "container.id" (.str c.containerId)).attr "disk.io.direction" (.str "read")).intoSignal,
      ((((Metric.now "container.disk.io" .counter (asF64 wbytes)).withUnit "By").attr
        "container.id" (.str c.containerId)).attr "disk.io.direction" (.str "write")).intoSignal]

/-- Without `memory.current` the target is gone. -/
def collect : List Signal × Except CollectError Unit :=
  match (c.read fs "memory.current").bind parseU64 with
  | none => ([], .error (.unavailable ("cgroup " ++ c.cgroup.display ++ " unreadable")))
  | some used =>
    (c.memory used ++ c.memoryMax fs ++ c.memoryEvents fs ++ c.cpuStat fs ++ c.ioStat fs, .ok ())

/-- What a cgroup counts from its creation on. -/
inductive Total where
  | oomKill | usageUsec | throttledUsec | rbytes | wbytes
  deriving DecidableEq, Repr

namespace Total

def all : List Total := [oomKill, usageUsec, throttledUsec, rbytes, wbytes]

/-- The total as it stands in the files, at a collection that finds its target. -/
def reading (total : Total) : Option UInt64 :=
  if ((c.read fs "memory.current").bind parseU64).isNone then none
  else match total with
    | oomKill => (c.read fs "memory.events").bind fun text => (parseKvLines text).lookup "oom_kill"
    | usageUsec => (c.read fs "cpu.stat").bind fun text => (parseKvLines text).lookup "usage_usec"
    | throttledUsec =>
      (c.read fs "cpu.stat").bind fun text => (parseKvLines text).lookup "throttled_usec"
    | rbytes => (c.read fs "io.stat").map fun text => (parseIoStat text).1
    | wbytes => (c.read fs "io.stat").map fun text => (parseIoStat text).2

def name : Total → String
  | oomKill => "harnesssphere.container.memory.oom"
  | usageUsec => "container.cpu.time"
  | throttledUsec => "harnesssphere.container.cpu.throttled"
  | rbytes | wbytes => "container.disk.io"

def unit : Total → Option String
  | oomKill => none
  | usageUsec | throttledUsec => some "s"
  | rbytes | wbytes => some "By"

def attributes : Total → Attributes
  | rbytes => [("container.id", .str c.containerId), ("disk.io.direction", .str "read")]
  | wbytes => [("container.id", .str c.containerId), ("disk.io.direction", .str "write")]
  | _ => [("container.id", .str c.containerId)]

/-- Seconds for the times. -/
def value (total : Total) (n : UInt64) : F64 := match total with
  | usageUsec | throttledUsec => asF64 n / 1000000
  | _ => asF64 n

def metric (total : Total) (n : UInt64) : Metric :=
  ⟨total.name, .counter, total.value n, total.unit, total.attributes c⟩

end Total

/-- The metrics of a collection whose instruments are gauges. -/
def levels : List Signal :=
  match (c.read fs "memory.current").bind parseU64 with
  | none => []
  | some used => c.memory used ++ c.memoryMax fs

/-- The metrics of those totals that could be read, each a counter with its absolute value. -/
def counted (totals : List Total) : List Signal :=
  totals.filterMap fun total => (total.reading fs c).map fun n => (total.metric c n).intoSignal

variable {fs c} {used : UInt64}

theorem memoryEvents_eq (hUsed : (c.read fs "memory.current").bind parseU64 = some used) :
    c.memoryEvents fs = c.counted fs [.oomKill] := by
  rw [memoryEvents, counted]
  cases hText : c.read fs "memory.events" with
  | none => simp [Total.reading, hUsed, hText]
  | some text =>
    cases hOom : (parseKvLines text).lookup "oom_kill" with
    | none => simp [Total.reading, hUsed, hText, hOom]
    | some n =>
      simp [Total.reading, hUsed, hText, hOom]
      rfl

theorem cpuStat_eq (hUsed : (c.read fs "memory.current").bind parseU64 = some used) :
    c.cpuStat fs = c.counted fs [.usageUsec, .throttledUsec] := by
  rw [cpuStat, counted]
  cases hText : c.read fs "cpu.stat" with
  | none => simp [Total.reading, hUsed, hText]
  | some text =>
    cases hUsage : (parseKvLines text).lookup "usage_usec" <;>
      cases hThrottled : (parseKvLines text).lookup "throttled_usec" <;>
        simp [Total.reading, hUsed, hText, hUsage, hThrottled]
    · rfl
    · rfl
    · exact ⟨rfl, rfl⟩

theorem ioStat_eq (hUsed : (c.read fs "memory.current").bind parseU64 = some used) :
    c.ioStat fs = c.counted fs [.rbytes, .wbytes] := by
  rw [ioStat, counted]
  cases hText : c.read fs "io.stat" with
  | none => simp [Total.reading, hUsed, hText]
  | some text =>
    simp [Total.reading, hUsed, hText]
    exact ⟨rfl, rfl⟩

theorem counted_append (totals more : List Total) :
    c.counted fs (totals ++ more) = c.counted fs totals ++ c.counted fs more :=
  List.filterMap_append

/-- After the levels a collection emits the totals it could read. -/
theorem signals_collect : (c.collect fs).1 = c.levels fs ++ c.counted fs Total.all := by
  cases hUsed : (c.read fs "memory.current").bind parseU64 with
  | none => simp [collect, levels, counted, Total.reading, hUsed]
  | some used =>
    have hAll : Total.all = [.oomKill] ++ ([.usageUsec, .throttledUsec] ++ [.rbytes, .wbytes]) := rfl
    rw [hAll, counted_append, counted_append, ← memoryEvents_eq hUsed, ← cpuStat_eq hUsed,
      ← ioStat_eq hUsed]
    simp [collect, levels, hUsed]

end ContainerCollector

end HarnessSphere
