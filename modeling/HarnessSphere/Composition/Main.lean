import HarnessSphere.Composition.Discovery
import HarnessSphere.Composition.Sources
import HarnessSphere.Runtime.Deaths

/-! # The composition root

`Config::load` and `main`: from the configuration to the sources, the exporter and discovery, or to an
exit before the supervisor runs; and from what the supervisor returns to the exit status.
-/

namespace HarnessSphere

open Machine

/-- The whole of `Config`. -/
structure Settings extends Config where
  exporter : String
  otlpEndpoint : String
  serviceName : String
  metricExportIntervalSecs : Nat
  discoveryIntervalSecs : Nat
  sessionIntervalSecs : Nat
  learningIntervalSecs : Nat
  sessionSource : String
  containerId : String

/-- An exit with its status and what is printed. -/
structure Exit where
  status : Nat
  message : String
  deriving DecidableEq, Repr

inductive Exporter where
  | stdout | otlp
  deriving DecidableEq, Repr

namespace Settings

def default : Settings where
  hostIntervalSecs := 5
  selfIntervalSecs := 10
  criticalThreshold := 3
  exporter := "stdout"
  otlpEndpoint := "http://localhost:4317"
  serviceName := "harnesssphere"
  metricExportIntervalSecs := 15
  watchProcesses := []
  probeTargets := []
  dataRoot := ""
  discoveryIntervalSecs := 30
  sessionIntervalSecs := 60
  learningIntervalSecs := 300
  sessionSource := "picoclaw"
  containerCgroup := ""
  containerId := ""

/-- `readToString`, `fromStr` and `var` are the file system, the TOML parser and the environment. -/
def load (readToString : String → Except String String) (fromStr : String → Except String Settings)
    (var : String → Option String) (path : Option String) : Except String Settings := do
  let cfg ← match path with
    | some p =>
      match readToString p with
      | .error e => .error ("failed to read config " ++ p ++ ": " ++ e)
      | .ok raw => fromStr raw
    | none => .ok default
  let cfg := match var "HARNESSSPHERE_EXPORTER" with
    | some v => { cfg with exporter := v }
    | none => cfg
  match var "OTEL_EXPORTER_OTLP_ENDPOINT" with
    | some v => .ok { cfg with otlpEndpoint := v }
    | none => .ok cfg

variable (cfg : Settings)

def discoveryInterval : Duration := max cfg.discoveryIntervalSecs 1

def sessionInterval : Duration := max cfg.sessionIntervalSecs 1

def learningInterval : Duration := max cfg.learningIntervalSecs 1

end Settings

/-- `PathBuf::from`, by its components: repeated separators and dots in the middle count for nothing. -/
def pathBuf (s : String) : Path := match s.toList.splitOn '/' with
  | [] => []
  | first :: rest => (first :: rest.filter fun c => c ≠ [] ∧ c ≠ ['.']).map Utf8.encode

/-- What `main` hands to the supervisor and to discovery. -/
structure Start where
  sources : List SignalSource
  exporter : Exporter
  criticalThreshold : UInt32
  discovery : Option (Discovery × Duration)

namespace Start

/-- The first target of an unknown layer ends it. -/
def targets : List ProbeTargetCfg → Except Exit (List ProbeTarget)
  | [] => .ok []
  | t :: rest =>
    match Layer.parse t.layer with
    | none => .error ⟨2, Config.unknownLayer t⟩
    | some layer =>
      match targets rest with
      | .error e => .error e
      | .ok targets => .ok (⟨t.address, layer⟩ :: targets)

/-- `otlp` is what comes of the OTLP exporter where it is built in. -/
def exporterOf (otlp : Option (Settings → Except String Unit)) (cfg : Settings) :
    Except Exit Exporter :=
  if cfg.exporter = "stdout" then .ok .stdout
  else if cfg.exporter = "otlp" then
    match otlp with
    | none =>
      .error ⟨2, "exporter 'otlp' unavailable: rebuild with `--features otlp` " ++
        "(cargo run -p harnesssphere --features otlp)"⟩
    | some build =>
      match build cfg with
      | .error e => .error ⟨2, "failed to start OTLP exporter: " ++ e⟩
      | .ok () => .ok .otlp
  else .error ⟨2, "unknown exporter '" ++ cfg.exporter ++ "' (use 'stdout' or 'otlp')"⟩

variable (pid : Except String UInt32) (otlp : Option (Settings → Except String Unit)) (cfg : Settings)

def start : Except Exit Start :=
  match SelfCollector.new pid cfg.selfInterval with
  | .error e => .error ⟨1, "fatal failure starting 'self' collector: " ++ e⟩
  | .ok selfCollector =>
    match targets cfg.probeTargets with
    | .error e => .error e
    | .ok targets =>
      match exporterOf otlp cfg with
      | .error e => .error e
      | .ok exporter => .ok
        { sources :=
            [.host (.new cfg.hostInterval), .self selfCollector] ++
              (if cfg.watchProcesses = [] then []
                else [.process (.new cfg.watchProcesses cfg.hostInterval)]) ++
              (if cfg.probeTargets.isEmpty then []
                else [.endpointProbe (.new targets cfg.hostInterval)]) ++
              (if cfg.containerCgroup = "" then []
                else [.container (.new (pathBuf cfg.containerCgroup) cfg.containerId cfg.hostInterval)]) ++
              (if cfg.dataRoot = "" then [] else [.discovery (.new cfg.selfInterval)])
          exporter := exporter
          criticalThreshold := cfg.criticalThreshold
          discovery :=
            if cfg.dataRoot = "" then none
            else some
              (⟨pathBuf cfg.dataRoot, cfg.sessionInterval, cfg.learningInterval, cfg.sessionSource⟩,
                cfg.discoveryInterval) }

/-- `main` up to the supervisor. -/
def ofMain (readToString : String → Except String String) (fromStr : String → Except String Settings)
    (var : String → Option String) (path : Option String) : Except Exit Start :=
  match Settings.load readToString fromStr var path with
  | .error e => .error ⟨2, "configuration error: " ++ e⟩
  | .ok cfg => start pid otlp cfg

variable {pid otlp cfg} {st : Start}

theorem targets_eq (ts : List ProbeTargetCfg) :
    targets ts = match ts.find? fun t => (Layer.parse t.layer).isNone with
      | some t => .error ⟨2, Config.unknownLayer t⟩
      | none => .ok (ts.filterMap fun t => (Layer.parse t.layer).map (ProbeTarget.mk t.address)) := by
  induction ts with
  | nil => rfl
  | cons t rest ih =>
    cases hLayer : Layer.parse t.layer with
    | none => simp [targets, hLayer]
    | some layer =>
      simp only [targets, hLayer, ih, Option.isNone_some, Bool.false_eq_true, not_false_eq_true,
        List.find?_cons_of_neg]
      cases rest.find? fun t => (Layer.parse t.layer).isNone <;> simp [hLayer]

/-- Where `main` comes to the supervisor, the sources are those the configuration names. -/
theorem sources_of_start (h : start pid otlp cfg = .ok st) :
    cfg.sources = .ok (st.sources.map SignalSource.descriptor) := by
  unfold start at h
  split at h
  · cases h
  · rename_i selfCollector hSelf
    have hDescriptor := SelfCollector.descriptor_of_new hSelf
    rw [targets_eq] at h
    unfold Config.sources
    cases hUnknown : cfg.probeTargets.find? fun t => (Layer.parse t.layer).isNone with
    | some t => simp [hUnknown] at h
    | none =>
      rw [hUnknown] at h
      dsimp only at h
      split at h
      · cases h
      · cases h
        simp only [List.map_append, List.map_cons, List.map_nil, SignalSource.descriptor, hDescriptor]
        split_ifs <;> rfl

/-- What every source has that `main` makes: only the machine and the watcher itself are Critical, and
only their probes are ever fatal; none is asked for something that cannot apply. -/
structure Sound (s : SignalSource) : Prop where
  made : s.Made
  interval : 1 ≤ s.descriptor.defaultInterval
  applicable : ∀ world, s.probe world ≠ .notApplicable
  fatal : ∀ world msg, s.probe world = .fatal msg → s.descriptor.criticality = .critical
  critical : s.descriptor.criticality = .critical ↔
    s.descriptor.name = "host" ∨ s.descriptor.name = "self"

/-- An Optional source that is ready or unavailable is sound. -/
theorem Sound.of_optional {s : SignalSource} (name : String) (hMade : s.Made)
    (hInterval : 1 ≤ s.descriptor.defaultInterval) (hOptional : s.descriptor.criticality = .optional)
    (hName : s.descriptor.name = name) (hOther : name ≠ "host" ∧ name ≠ "self")
    (hProbe : ∀ world, s.probe world = .ready ∨ ∃ msg, s.probe world = .unavailable msg) :
    Sound s := by
  refine ⟨hMade, hInterval, fun world hNot => ?_, fun world msg hFatal => ?_, ?_⟩
  · obtain hReady | ⟨msg, hUnavailable⟩ := hProbe world
    · rw [hReady] at hNot
      cases hNot
    · rw [hUnavailable] at hNot
      cases hNot
  · obtain hReady | ⟨msg', hUnavailable⟩ := hProbe world
    · rw [hReady] at hFatal
      cases hFatal
    · rw [hUnavailable] at hFatal
      cases hFatal
  · rw [hOptional, hName]
    constructor
    · intro hCritical
      cases hCritical
    · rintro (hHost | hSelf)
      · exact absurd hHost hOther.1
      · exact absurd hSelf hOther.2

theorem targets_ne_nil {ts : List ProbeTargetCfg} {ps : List ProbeTarget} (h : targets ts = .ok ps)
    (hSome : ts ≠ []) : ps ≠ [] := by
  cases ts with
  | nil => exact absurd rfl hSome
  | cons t rest =>
    rw [targets] at h
    split at h
    · cases h
    · split at h
      · cases h
      · cases h
        exact List.cons_ne_nil _ _

theorem sound_of_mem (h : start pid otlp cfg = .ok st) {s : SignalSource} (hs : s ∈ st.sources) :
    Sound s := by
  have hHost : 1 ≤ cfg.hostInterval := Nat.le_max_right _ _
  have hSelf : 1 ≤ cfg.selfInterval := Nat.le_max_right _ _
  unfold start at h
  split at h
  · cases h
  rename_i selfCollector hNew
  split at h
  · cases h
  rename_i targets hTargets
  split at h
  · cases h
  cases h
  simp only [List.cons_append, List.nil_append, List.append_assoc, List.mem_cons,
    List.mem_append, List.mem_ite_nil_left, List.not_mem_nil, or_false] at hs
  obtain rfl | rfl | ⟨hSome, rfl⟩ | ⟨hSome, rfl⟩ | ⟨-, rfl⟩ | ⟨-, rfl⟩ := hs
  · refine ⟨.host _, hHost, fun world => ?_, fun _ _ _ => rfl, fun _ => .inl rfl, fun _ => rfl⟩
    simp only [SignalSource.probe, HostCollector.probe]
    split_ifs <;> simp
  · have hDescriptor := SelfCollector.descriptor_of_new hNew
    refine ⟨.self hNew, ?_, fun world => ?_, fun _ _ _ => ?_, fun _ => .inr ?_, fun _ => ?_⟩
    · rw [SignalSource.descriptor, hDescriptor]
      exact hSelf
    · simp only [SignalSource.probe, SelfCollector.probe]
      split_ifs <;> simp
    all_goals rw [SignalSource.descriptor, hDescriptor]
  · refine .of_optional "process" (.process _ _) hHost rfl rfl (by decide) fun world => .inl ?_
    exact if_neg (by simpa [ProcessCollector.new] using hSome)
  · refine .of_optional "endpoint-probe" (.endpointProbe _ _) hHost rfl rfl (by decide) fun _ => .inl ?_
    have hThere := targets_ne_nil hTargets (by simpa using hSome)
    exact if_neg (by simpa [EndpointProbeCollector.new] using hThere)
  · refine .of_optional "container" (.container _ _ _) hHost rfl rfl (by decide) fun world => ?_
    simp only [SignalSource.probe, ContainerCollector.probe]
    split_ifs
    · exact .inl rfl
    · exact .inr ⟨_, rfl⟩
  · exact .of_optional "discovery" (.discovery _) hSelf rfl rfl (by decide) fun world => .inl rfl

theorem names_nodup (h : start pid otlp cfg = .ok st) :
    ((st.sources.map SignalSource.descriptor).map SourceDescriptor.name).Nodup := by
  have hSources := sources_of_start h
  unfold Config.sources at hSources
  split at hSources
  · cases hSources
  · rw [← Except.ok.inj hSources]
    split_ifs <;> simp

end Start

/-- What `main` makes of the supervisor's result. -/
def exitStatus : Except FatalSignal Unit → Exit
  | .ok () => ⟨0, ""⟩
  | .error fatal =>
    ⟨1, "FATAL: critical collector '" ++ fatal.source ++ "' went down: " ++ fatal.reason⟩

/-- What a step leaves as it was, or the way there. -/
theorem Task.notApplicable_of_act {now : Nat} {room : Bool} {t t' : Task} {e : TaskEvent}
    {fatal : Option FatalSignal} (hAct : Task.Act now room t e t' fatal)
    (hPoint' : t'.point = .ended .notApplicable) :
    e = .probed .notApplicable ∧ t.origin = .boot := by
  have hPanic (hPoint : t.panic.point = .ended .notApplicable) : False := by
    obtain ⟨hEnded, -⟩ | ⟨hReporting, -⟩ := t.point_panic
    · rw [hEnded] at hPoint
      cases hPoint
    · rw [hReporting] at hPoint
      cases hPoint
  cases hAct with
  | probed r hPoint =>
    obtain hTo | hTo | ⟨rfl, hBoot, -⟩ | ⟨msg, -, hTo⟩ := t.point_probed now r
    · rw [hTo] at hPoint'
      cases hPoint'
    · exact (hPanic (hTo.symm.trans hPoint')).elim
    · exact ⟨rfl, hBoot⟩
    · rw [hTo] at hPoint'
      cases hPoint'
  | probePanicked hPoint | retirePanicked _ _ hPoint => exact (hPanic hPoint').elim
  | ticked hPoint hDue =>
    obtain hTo | ⟨wake, hTo⟩ := t.point_ticked now
    · rw [hTo] at hPoint'
      cases hPoint'
    · rw [hTo] at hPoint'
      cases hPoint'
  | collected outcome hPoint =>
    obtain hTo | ⟨reason, hTo⟩ := t.point_collected outcome
    · rw [hTo] at hPoint'
      cases hPoint'
    · rw [hTo] at hPoint'
      cases hPoint'
  | emitted signal hPoint =>
    rw [show (t.emit .collect signal).point = t.point from rfl, hPoint] at hPoint'
    cases hPoint'
  | reported _ resume _ _ => cases resume <;> cases hPoint'
  | stopSeen _ _ _ | woke _ _ _ | terminal _ _ _ _ | retired _ _ => cases hPoint'

namespace Process

/-- What discovery adds. -/
def Discovered (d : Discovery) (s : SignalSource) : Prop :=
  (∃ w, s = .session (.new w d.harnessName d.sessionInterval)) ∨
    ∃ w, s = .learning (.new w d.harnessName d.learningInterval)

theorem of_discovered {d : Discovery} {s : SignalSource} (h : Discovered d s) :
    s.descriptor.criticality = .optional ∧ ∀ world msg, s.probe world ≠ .fatal msg := by
  obtain ⟨w, rfl⟩ | ⟨w, rfl⟩ := h
  all_goals
    refine ⟨rfl, fun world msg => ?_⟩
    simp only [SignalSource.probe, SessionCollector.probe, LearningCollector.probe, Workspace.probe]
    split_ifs <;> simp

theorem interval_of_discovered {st : Start} {pid : Except String UInt32}
    {otlp : Option (Settings → Except String Unit)} {cfg : Settings}
    (h : Start.start pid otlp cfg = .ok st) {x : Discovery × Duration} (hx : x ∈ st.discovery)
    {s : SignalSource} (hs : Discovered x.1 s) : 1 ≤ s.descriptor.defaultInterval := by
  unfold Start.start at h
  split at h
  · cases h
  split at h
  · cases h
  split at h
  · cases h
  cases h
  obtain ⟨-, rfl⟩ : cfg.dataRoot ≠ "" ∧ _ := by simpa using hx
  obtain ⟨w, rfl⟩ | ⟨w, rfl⟩ := hs
  · exact Nat.le_max_right _ _
  · exact Nat.le_max_right _ _

/-- What a task was spawned with, and does not change. -/
def source (t : Task) : SourceDescriptor × Origin := (t.desc, t.origin)

/-- The source behind a task is one of those `main` made, or was made by its discovery. -/
def Behind (st : Start) (x : SourceDescriptor × Origin) (s : SignalSource) : Prop :=
  s.descriptor = x.1 ∧
    (x.2 = .boot ∧ s ∈ st.sources ∨ x.2 = .discovered ∧ ∃ d ∈ st.discovery, Discovered d.1 s)

/-- The tasks run the sources of `main` and of discovery: a probe is that of the task's source; and what
comes by command comes from discovery, where there is one. -/
def drives (st : Start) (p : Process) : ProcessEvent → Prop
  | .task i (.probed r) => ∀ t, p.supervisor.tasks[i]? = some t →
    ∃ s world, Behind st (source t) s ∧ r = s.probe world
  | .command (.add desc) => ∃ s, Behind st (desc, .discovered) s
  | .command (.remove name) => st.discovery.isSome ∧
    ∃ w : Workspace, name = w.sourceName ∨ name = learningKey w.sourceName
  | _ => True

variable {st : Start} {p p' : Process} {e : ProcessEvent} {i : Nat} {t t' : Task}

theorem Effect.origin (h : Effect p e p' i t t') : t'.origin = t.origin := by
  cases h with
  | moved e' _ fatal hEvent hAct hSent => exact (Task.spec_of_act hAct).1.origin
  | _ => rfl

/-- A step that spawns nothing leaves every task the source it has. -/
theorem sources_of_length (hAct : Act p e p')
    (hLength : p'.supervisor.tasks.length = p.supervisor.tasks.length) :
    p'.supervisor.tasks.map source = p.supervisor.tasks.map source := by
  apply List.ext_getElem?
  intro i
  rw [List.getElem?_map, List.getElem?_map]
  cases hTask : p.supervisor.tasks[i]? with
  | none =>
    have hNone : p'.supervisor.tasks[i]? = none := by
      rw [List.getElem?_eq_none_iff] at hTask ⊢
      omega
    rw [hNone]
  | some t =>
    obtain ⟨t', hTask', hEffect⟩ := effect_of_task hAct hTask
    rw [hTask', Option.map_some, Option.map_some, source, hEffect.desc, hEffect.origin]
    rfl

/-- How the list of tasks grows: at the boot by its next source, and by command. -/
inductive Grown (p : Process) (e : ProcessEvent) (p' : Process) : Prop where
  | same (hSources : p'.supervisor.tasks.map source = p.supervisor.tasks.map source)
      (hBoot : p'.supervisor.boot = p.supervisor.boot)
  | refused (desc : SourceDescriptor) (hBoot : p.supervisor.boot = desc :: p'.supervisor.boot)
      (hOld : desc.name ∈ p.supervisor.registry)
  | booted (desc : SourceDescriptor) (hBoot : p.supervisor.boot = desc :: p'.supervisor.boot)
      (hSources : p'.supervisor.tasks.map source = p.supervisor.tasks.map source ++ [(desc, .boot)])
  | added (desc : SourceDescriptor) (hEvent : e = .command (.add desc)) (hIdle : p.supervisor.boot = [])
      (hBoot : p'.supervisor.boot = [])
      (hSources : p'.supervisor.tasks.map source =
        p.supervisor.tasks.map source ++ [(desc, .discovered)])

theorem grown_of_act (hAct : Act p e p') : Grown p e p' := by
  have hSame := sources_of_length hAct
  cases hAct with
  | spawnBoot s hRunning hAct =>
    cases hAct with
    | bootDuplicate desc boot hBoot hName => exact .refused desc hBoot hName
    | bootSpawned desc boot hBoot hName => exact .booted desc hBoot List.map_append
  | command cmd s hRunning hAct =>
    cases hAct with
    | addDuplicate | removeMissing => exact .same rfl rfl
    | added desc hIdle hName => exact .added desc rfl hIdle.1 hIdle.1 List.map_append
    | removed name j hIdle hName => exact .same (hSame (List.length_modify _ _ _)) rfl
  | joined s hRunning hAct =>
    cases hAct with
    | joined r hRemoval hFinished => exact .same rfl rfl
  | timedOut r hRunning hRemoval hUnfinished =>
    exact .same (hSame (length_abort _ _)) (by unfold abort; split_ifs <;> rfl)
  | aborts name result j hStage hName =>
    exact .same (hSame (length_abort _ _)) (by unfold abort; split_ifs <;> rfl)
  | task j e t t' fatal hBusy hTask hStep => exact .same (hSame List.length_set) rfl
  | ended j hBusy hCondemned => exact .same (hSame (List.length_modify _ _ _)) rfl
  | drops result j hStage => exact .same (hSame (List.length_modify _ _ _)) rfl
  | _ => exact .same rfl rfl

variable {pid : Except String UInt32} {otlp : Option (Settings → Except String Unit)} {cfg : Settings}

theorem Behind.interval (hStart : Start.start pid otlp cfg = .ok st) {x : SourceDescriptor × Origin}
    {s : SignalSource} (h : Behind st x s) : 1 ≤ x.1.defaultInterval := by
  rw [← h.1]
  obtain ⟨-, hs⟩ | ⟨-, d, hd, hs⟩ := h.2
  · exact (Start.sound_of_mem hStart hs).interval
  · exact interval_of_discovered hStart hd hs

theorem Behind.fatal (hStart : Start.start pid otlp cfg = .ok st) {x : SourceDescriptor × Origin}
    {s : SignalSource} (h : Behind st x s) {world : World} {msg : String}
    (hProbe : s.probe world = .fatal msg) : x.1.criticality = .critical := by
  rw [← h.1]
  obtain ⟨-, hs⟩ | ⟨-, d, hd, hs⟩ := h.2
  · exact (Start.sound_of_mem hStart hs).fatal world msg hProbe
  · exact absurd hProbe ((of_discovered hs).2 world msg)

theorem Behind.critical (hStart : Start.start pid otlp cfg = .ok st) {x : SourceDescriptor × Origin}
    {s : SignalSource} (h : Behind st x s) :
    x.1.criticality = .critical ↔ x.1.name = "host" ∨ x.1.name = "self" := by
  rw [← h.1]
  obtain ⟨-, hs⟩ | ⟨-, d, hd, hs⟩ := h.2
  · exact (Start.sound_of_mem hStart hs).critical
  · have hName : s.descriptor.name ∉ bootNames := by
      obtain ⟨w, rfl⟩ | ⟨w, rfl⟩ := hs
      · exact sourceName_notMem_bootNames w
      · exact learningKey_notMem_bootNames _
    rw [(of_discovered hs).1]
    refine ⟨nofun, ?_⟩
    rintro (hHost | hSelf)
    · exact absurd (by simp [hHost, bootNames]) hName
    · exact absurd (by simp [hSelf, bootNames]) hName

/-- The tasks of the boot and the sources it has still to spawn are the sources of `main`; until all are
spawned, there is no other task. -/
structure Booted (st : Start) (p : Process) : Prop where
  handled : Handled p
  early : p.supervisor.boot ≠ [] → ∀ x ∈ p.supervisor.tasks.map source, x.2 = .boot
  sources : ((p.supervisor.tasks.map source).filter fun x => x.2 = .boot).map Prod.fst ++
    p.supervisor.boot = st.sources.map SignalSource.descriptor
  behind : ∀ x ∈ p.supervisor.tasks.map source, ∃ s, Behind st x s

theorem booted_new (st : Start) :
    Booted st (new st.criticalThreshold (st.sources.map SignalSource.descriptor)) where
  handled := handled_new _ _
  early _ x hx := by cases hx
  sources := rfl
  behind x hx := by cases hx

/-- No name stands twice among the sources of `main`, so that none of them is refused. -/
theorem Booted.not_refused (h : Booted st p) (hStart : Start.start pid otlp cfg = .ok st)
    {desc : SourceDescriptor} {boot : List SourceDescriptor} (hBoot : p.supervisor.boot = desc :: boot) :
    desc.name ∉ p.supervisor.registry := by
  intro hOld
  obtain ⟨i, hLookup⟩ := Option.isSome_iff_exists.mp (AList.lookup_isSome.mpr hOld)
  obtain ⟨t, hTask, hName⟩ := h.handled _ _ hLookup
  have hMem : source t ∈ p.supervisor.tasks.map source := List.mem_map_of_mem (List.mem_of_getElem? hTask)
  have hOrigin : (source t).2 = .boot := h.early (by simp [hBoot]) _ hMem
  have hNodup := Start.names_nodup hStart
  rw [← h.sources, hBoot, List.map_append, List.map_cons, List.nodup_append] at hNodup
  refine hNodup.2.2 t.desc.name ?_ desc.name List.mem_cons_self hName
  exact List.mem_map_of_mem (List.mem_map.mpr
    ⟨source t, List.mem_filter.mpr ⟨hMem, decide_eq_true hOrigin⟩, rfl⟩)

theorem booted_of_act (hStart : Start.start pid otlp cfg = .ok st) (hAct : Act p e p')
    (hDrives : drives st p e) (h : Booted st p) : Booted st p' := by
  have hHandled := handled_of_act hAct h.handled
  cases grown_of_act hAct with
  | same hSources hBoot =>
    exact ⟨hHandled, by rw [hSources, hBoot]; exact h.early, by rw [hSources, hBoot]; exact h.sources,
      by rw [hSources]; exact h.behind⟩
  | refused desc hBoot hOld => exact absurd hOld (h.not_refused hStart hBoot)
  | booted desc hBoot hSources =>
    refine ⟨hHandled, fun _ x hx => ?_, ?_, fun x hx => ?_⟩
    · rw [hSources, List.mem_append, List.mem_singleton] at hx
      obtain hx | rfl := hx
      · exact h.early (by simp [hBoot]) x hx
      · rfl
    · rw [hSources, ← h.sources, hBoot]
      simp
    · rw [hSources, List.mem_append, List.mem_singleton] at hx
      obtain hx | rfl := hx
      · exact h.behind x hx
      · have hMem : desc ∈ st.sources.map SignalSource.descriptor := by
          rw [← h.sources, hBoot]
          simp
        obtain ⟨s, hs, rfl⟩ := List.mem_map.mp hMem
        exact ⟨s, rfl, .inl ⟨rfl, hs⟩⟩
  | added desc hEvent hIdle hBoot hSources =>
    refine ⟨hHandled, fun hSome => absurd hBoot hSome, ?_, fun x hx => ?_⟩
    · rw [hSources, ← h.sources, hIdle, hBoot]
      simp
    · rw [hSources, List.mem_append, List.mem_singleton] at hx
      obtain hx | rfl := hx
      · exact h.behind x hx
      · subst hEvent
        exact hDrives

/-- What is watched applies, and what the program starts with is never asked to stop. -/
structure Steady (t : Task) : Prop where
  applicable : t.point ≠ .ended .notApplicable
  stop : t.desc.name ∈ bootNames → t.stop ≠ .sent

theorem steady_of_act (hStart : Start.start pid otlp cfg = .ok st) (hAct : Act p e p')
    (hDrives : drives st p e) (hHandled : Handled p)
    (h : ∀ (i : Nat) (t : Task), p.supervisor.tasks[i]? = some t → Steady t) :
    ∀ (i : Nat) (t : Task), p'.supervisor.tasks[i]? = some t → Steady t := by
  apply tasks_of_act (Q := fun _ _ t => Steady t) hAct h
  · intro i t t' hTask hTask' hEffect hOld
    cases hEffect with
    | same => exact hOld
    | removed name hEvent hName =>
      refine ⟨hOld.applicable, fun hBootName => ?_⟩
      subst hEvent
      obtain ⟨u, hu, rfl⟩ := hHandled _ _ hName
      obtain rfl := Option.some.inj (hTask.symm.trans hu)
      obtain ⟨-, w, hw | hw⟩ := hDrives
      · exact absurd (hw ▸ hBootName) (sourceName_notMem_bootNames w)
      · exact absurd (hw ▸ hBootName) (learningKey_notMem_bootNames _)
    | dropped result hStage => exact ⟨hOld.applicable, fun _ => nofun⟩
    | aborted hUnfinished hWhy => exact ⟨nofun, hOld.stop⟩
    | moved e' t' fatal hEvent hTaskAct hSent =>
      have hSame := (Task.spec_of_act hTaskAct).1
      refine ⟨fun hEnded => ?_, by rw [hSame.desc, hSame.stop]; exact hOld.stop⟩
      obtain ⟨rfl, hBoot⟩ := Task.notApplicable_of_act hTaskAct hEnded
      subst hEvent
      obtain ⟨s, world, ⟨-, ⟨-, hs⟩ | ⟨hDiscovered, -⟩⟩, hProbe⟩ := hDrives t hTask
      · exact (Start.sound_of_mem hStart hs).applicable world hProbe.symm
      · rw [show t.origin = .discovered from hDiscovered] at hBoot
        cases hBoot
  · intro desc origin _
    exact ⟨nofun, fun _ => nofun⟩

theorem wellProbed_of_drives (hStart : Start.start pid otlp cfg = .ok st) (h : drives st p e) :
    p.wellProbed e := by
  unfold wellProbed
  split
  · rename_i i msg
    rw [Option.all_eq_true]
    intro t hTask
    obtain ⟨s, world, hBehind, hProbe⟩ := h t hTask
    exact decide_eq_true (hBehind.fatal hStart hProbe.symm)
  · rfl

def ofStart (st : Start) : Process := new st.criticalThreshold (st.sources.map SignalSource.descriptor)

/-- What holds of every process that `main` runs. -/
structure Ruled (st : Start) (p : Process) : Prop where
  booted : Booted st p
  steady : ∀ (i : Nat) (t : Task), p.supervisor.tasks[i]? = some t → Steady t
  onlyCritical : OnlyCritical p

theorem ruled_of_run (hStart : Start.start pid otlp cfg = .ok st) {events : List ProcessEvent}
    (hRun : Run step (drives st) (ofStart st) events p) : Ruled st p := by
  refine hRun.invariant ⟨booted_new st, fun i t hTask => ?_, onlyCritical_new _ _⟩ ?_
  · simp [ofStart, new, Supervisor.new] at hTask
  · intro p e p' h hDrives hStep
    have hAct := act_of_step hStep
    exact ⟨booted_of_act hStart hAct hDrives h.booted,
      steady_of_act hStart hAct hDrives h.booted.handled h.steady,
      onlyCritical_of_act hAct (wellProbed_of_drives hStart hDrives) h.onlyCritical⟩

/-- What `main` is started with, and the process it comes to. -/
theorem start_of_ofMain {readToString : String → Except String String}
    {fromStr : String → Except String Settings} {var : String → Option String} {path : Option String}
    (h : Start.ofMain pid otlp readToString fromStr var path = .ok st) :
    ∃ cfg, Settings.load readToString fromStr var path = .ok cfg ∧ Start.start pid otlp cfg = .ok st := by
  unfold Start.ofMain at h
  split at h
  · cases h
  · exact ⟨_, ‹_›, h⟩

/-- The sources of the configuration are all watched from the boot on, in its order and each once, until
the boot has come to them; and no task finds that its source does not apply, or has an interval that
the timer would refuse. -/
theorem every_configured_source_is_watched (pid : Except String UInt32)
    (otlp : Option (Settings → Except String Unit)) (readToString : String → Except String String)
    (fromStr : String → Except String Settings) (var : String → Option String) (path : Option String)
    (st : Start) (hMain : Start.ofMain pid otlp readToString fromStr var path = .ok st)
    (events : List ProcessEvent) (p : Process) (hRun : Run step (drives st) (ofStart st) events p) :
    (∃ cfg, Settings.load readToString fromStr var path = .ok cfg ∧
      cfg.sources = .ok
        ((p.supervisor.tasks.filter fun t => t.origin = .boot).map Task.desc ++ p.supervisor.boot)) ∧
    ∀ t ∈ p.supervisor.tasks, 1 ≤ t.desc.defaultInterval ∧ t.point ≠ .ended .notApplicable := by
  obtain ⟨cfg, hLoad, hStart⟩ := start_of_ofMain hMain
  have h := ruled_of_run hStart hRun
  refine ⟨⟨cfg, hLoad, ?_⟩, fun t ht => ⟨?_, ?_⟩⟩
  · rw [Start.sources_of_start hStart, ← h.booted.sources, List.filter_map, List.map_map]
    rfl
  · obtain ⟨s, hBehind⟩ := h.booted.behind _ (List.mem_map_of_mem ht)
    exact hBehind.interval hStart
  · obtain ⟨i, hTask⟩ := List.mem_iff_getElem?.mp ht
    exact (h.steady i t hTask).applicable

/-- What `run` has made up its mind to return. -/
def decided : Stage → Option (Except FatalSignal Unit)
  | .running => none
  | .aborting result | .dropping result _ | .flushing result | .returned result => some result

/-- The signal that ended the process is the first that was sent. -/
structure Decided (events : List ProcessEvent) (p : Process) : Prop where
  sent : p.sent.map Prod.snd =
    (match decided p.stage with
      | some (.error f) => [f]
      | _ => []) ++ p.supervisor.fatal
  interrupted : decided p.stage = some (.ok ()) → .ctrlC ∈ events

theorem fatal_abort (p : Process) (i : Nat) : (p.abort i).supervisor.fatal = p.supervisor.fatal := by
  unfold abort
  split_ifs <;> rfl

theorem running_of_listening (h : p.listening) : p.stage = .running := by
  simp only [listening, Bool.decide_and, Bool.and_eq_true, decide_eq_true_eq] at h
  exact h.1

theorem decided_of_act {events : List ProcessEvent} (hAct : Act p e p') (h : Decided events p) :
    Decided (events ++ [e]) p' := by
  have hKeep : decided p.stage = some (.ok ()) → .ctrlC ∈ events ++ [e] := fun hOk =>
    List.mem_append_left _ (h.interrupted hOk)
  have hSent := h.sent
  cases hAct with
  | spawnBoot s hRunning hAct | command cmd s hRunning hAct | joined s hRunning hAct =>
    cases hAct <;> exact ⟨hSent, hKeep⟩
  | timedOut r hRunning hRemoval hUnfinished =>
    refine ⟨?_, ?_⟩
    · rw [sent_abort, stage_abort, fatal_abort]
      exact hSent
    · rw [stage_abort]
      exact hKeep
  | task i e' t t' fatal hBusy hTask hStep =>
    refine ⟨?_, hKeep⟩
    simp only [tell, List.map_append, List.map_map, hSent, List.append_assoc]
    simp [Function.comp_def]
  | fatalReceived f rest hListening hFatal =>
    rw [running_of_listening hListening, hFatal] at hSent
    exact ⟨hSent, fun hOk => by cases hOk⟩
  | ctrlC hListening =>
    rw [running_of_listening hListening] at hSent
    exact ⟨hSent, fun _ => List.mem_append_right _ List.mem_cons_self⟩
  | aborts name result i hStage hName =>
    rw [hStage] at hSent hKeep
    refine ⟨?_, ?_⟩
    · rw [sent_abort, stage_abort, fatal_abort]
      exact hSent
    · rw [stage_abort]
      exact hKeep
  | drops result i hStage | drained result hStage _ | returned result hStage =>
    rw [hStage] at hSent hKeep
    exact ⟨hSent, hKeep⟩
  | _ => exact ⟨hSent, hKeep⟩

/-- The exit status tells why the program ended: zero is an interrupt, and one is the first fatal signal
that was sent, which came from the task of `host` or `self` that the message names. -/
theorem the_exit_status_tells_who_died (pid : Except String UInt32)
    (otlp : Option (Settings → Except String Unit)) (cfg : Settings) (st : Start)
    (hStart : Start.start pid otlp cfg = .ok st) (events : List ProcessEvent) (p : Process)
    (hRun : Run step (drives st) (ofStart st) events p) (result : Except FatalSignal Unit)
    (hStage : p.stage = .returned result) :
    exitStatus result = ⟨0, ""⟩ ∧ .ctrlC ∈ events ∨
    ∃ i f t, p.sent.head? = some (i, f) ∧ p.supervisor.tasks[i]? = some t ∧
      (t.desc.name = "host" ∨ t.desc.name = "self") ∧
      exitStatus result =
        ⟨1, "FATAL: critical collector '" ++ t.desc.name ++ "' went down: " ++ f.reason⟩ := by
  have hDecided : Decided events p := hRun.history ⟨rfl, nofun⟩
    fun _ _ _ _ h _ hStep => decided_of_act (act_of_step hStep) h
  cases result with
  | ok =>
    left
    exact ⟨rfl, hDecided.interrupted (by rw [hStage]; rfl)⟩
  | error f =>
    right
    have hSent := hDecided.sent
    rw [hStage] at hSent
    obtain ⟨x, rest, hCons, hFirst, -⟩ := List.map_eq_cons_iff.mp hSent
    have hRuled := ruled_of_run hStart hRun
    obtain ⟨t, hTask, hCritical, hSource⟩ := hRuled.onlyCritical.sent x.1 x.2 (by rw [hCons]; simp)
    obtain ⟨s, hBehind⟩ := hRuled.booted.behind _ (List.mem_map_of_mem (List.mem_of_getElem? hTask))
    refine ⟨x.1, x.2, t, by rw [hCons]; rfl, hTask, (hBehind.critical hStart).mp hCritical, ?_⟩
    rw [← hSource, hFirst]
    rfl

/-- As `main` runs them, a Critical source that has ended has been reported dead, or the shutdown has
aborted it. -/
theorem host_and_self_never_die_silently (pid : Except String UInt32)
    (otlp : Option (Settings → Except String Unit)) (cfg : Settings) (st : Start)
    (hStart : Start.start pid otlp cfg = .ok st) (events : List ProcessEvent) (p : Process)
    (hRun : Run step (drives st) (ofStart st) events p) (i : Nat) (t : Task)
    (hTask : p.supervisor.tasks[i]? = some t)
    (hName : t.desc.name = "host" ∨ t.desc.name = "self") (hFinished : t.finished) :
    (∃ f, (i, f) ∈ p.sent ∧ f.source = t.desc.name) ∨ i ∈ p.shutDown := by
  have hRuled := ruled_of_run hStart hRun
  have hSteady := hRuled.steady i t hTask
  obtain ⟨s, hBehind⟩ := hRuled.booted.behind _ (List.mem_map_of_mem (List.mem_of_getElem? hTask))
  have hBootName : t.desc.name ∈ bootNames := by
    obtain hHost | hSelf := hName
    · simp [hHost, bootNames]
    · simp [hSelf, bootNames]
  have hAccounted : Accounted p := accounted_of_reaches hRun.reaches
  obtain ⟨u, hu, hStop⟩ | hShutDown | hHeard | ⟨-, hEnded⟩ :=
    or_assoc.mp ((hAccounted.tasks i t hTask).dead hFinished ((hBehind.critical hStart).mpr hName))
  · obtain rfl := Option.some.inj (hTask.symm.trans hu)
    exact absurd hStop (hSteady.stop hBootName)
  · exact .inr hShutDown
  · exact .inl hHeard
  · exact absurd hEnded hSteady.applicable

section Sample

/-- What `main` comes to without a configuration. -/
def bareStart : Start where
  sources := [.host (.new 5), .self ⟨⟨"self", .watcher, .critical, 10⟩, 7⟩]
  exporter := .stdout
  criticalThreshold := 3
  discovery := none

theorem ofMain_bare : Start.ofMain (.ok 7) none (fun _ => .error "") (fun _ => .error "")
    (fun _ => none) none = .ok bareStart := rfl

/-- A machine whose memory cannot be read. -/
def memoryless : World where
  fs := ⟨fun _ => none, fun _ => none, fun _ => none⟩
  fromStr _ := none
  sys := ⟨0, 0, 0, 0, 0, 0, 0, ∅⟩
  connect _ _ := ⟨false, 0⟩
  workspaces := 0
  scans := 0

def memoryUnread : List ProcessEvent :=
  [.spawnBoot, .spawnBoot, .polled 0, .task 0 (.probed (.fatal "could not read host memory")),
    .task 0 .reported]

def shutsDown : List ProcessEvent :=
  [.fatalReceived, .aborts "host", .drops, .aborts "self", .drops, .drained, .returned]

theorem run_memoryUnread : Run step (drives bareStart) (ofStart bareStart) memoryUnread
    (after step (ofStart bareStart) memoryUnread) := by
  iterate 3 refine run_cons_iff.mpr ⟨_, trivial, rfl, ?_⟩
  refine run_cons_iff.mpr ⟨_, fun t hTask => ?_, rfl, .single trivial rfl⟩
  obtain rfl := Option.some.inj hTask
  exact ⟨.host (.new 5), memoryless, ⟨rfl, .inl ⟨rfl, List.mem_cons_self⟩⟩, rfl⟩

theorem a_bare_program_watches_host_and_self :
    (∃ cfg, Settings.load (fun _ => .error "") (fun _ => .error "") (fun _ => none) none = .ok cfg ∧
      cfg.sources = .ok [(HostCollector.new 5).descriptor, ⟨"self", .watcher, .critical, 10⟩]) ∧
    ∀ t ∈ (after step (ofStart bareStart) memoryUnread).supervisor.tasks,
      1 ≤ t.desc.defaultInterval ∧ t.point ≠ .ended .notApplicable :=
  every_configured_source_is_watched (.ok 7) none _ _ _ _ bareStart ofMain_bare memoryUnread _
    run_memoryUnread

theorem a_host_without_memory_ends_the_program :
    ∃ i f t, (after step (ofStart bareStart) (memoryUnread ++ shutsDown)).sent.head? = some (i, f) ∧
      (after step (ofStart bareStart) (memoryUnread ++ shutsDown)).supervisor.tasks[i]? = some t ∧
      (t.desc.name = "host" ∨ t.desc.name = "self") ∧
      exitStatus (.error ⟨"host", "probe fatal: could not read host memory"⟩) =
        ⟨1, "FATAL: critical collector '" ++ t.desc.name ++ "' went down: " ++ f.reason⟩ := by
  have hRun : Run step (drives bareStart) (ofStart bareStart) (memoryUnread ++ shutsDown)
      (after step (ofStart bareStart) (memoryUnread ++ shutsDown)) := by
    refine run_memoryUnread.append ?_
    iterate 7 refine run_cons_iff.mpr ⟨_, trivial, rfl, ?_⟩
    exact .nil
  obtain ⟨-, hCtrlC⟩ | hDied := the_exit_status_tells_who_died (.ok 7) none .default bareStart rfl _ _
    hRun (.error ⟨"host", "probe fatal: could not read host memory"⟩) rfl
  · simp [memoryUnread, shutsDown] at hCtrlC
  · exact hDied

theorem a_host_without_memory_is_reported :
    ∃ f, (0, f) ∈ (after step (ofStart bareStart) memoryUnread).sent ∧ f.source = "host" := by
  obtain hHeard | hAborted := host_and_self_never_die_silently (.ok 7) none .default bareStart rfl
    memoryUnread _ run_memoryUnread 0 _ rfl (.inl rfl) rfl
  · exact hHeard
  · cases hAborted

end Sample

end Process

end HarnessSphere
