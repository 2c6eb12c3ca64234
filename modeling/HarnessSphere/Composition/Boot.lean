import HarnessSphere.Domain.Ports

/-! # The sources the process starts with -/

namespace HarnessSphere

structure ProbeTargetCfg where
  address : String
  layer : String

/-- The part of the configuration that decides which sources there are at the start. -/
structure Config where
  hostIntervalSecs : Nat
  selfIntervalSecs : Nat
  criticalThreshold : UInt32
  watchProcesses : List String
  probeTargets : List ProbeTargetCfg
  dataRoot : String
  containerCgroup : String

namespace Config

variable (cfg : Config)

def hostInterval : Duration := max cfg.hostIntervalSecs 1

def selfInterval : Duration := max cfg.selfIntervalSecs 1

def unknownLayer (t : ProbeTargetCfg) : String :=
  "probe_targets: unknown layer '" ++ t.layer ++ "' for '" ++ t.address ++
    "' (expected one of: host, watcher, gateway, proxy, webapp, harness)"

def sources : Except String (List SourceDescriptor) :=
  match cfg.probeTargets.find? fun t => (Layer.parse t.layer).isNone with
  | some t => .error (unknownLayer t)
  | none => .ok <|
    [⟨"host", .host, .critical, cfg.hostInterval⟩, ⟨"self", .watcher, .critical, cfg.selfInterval⟩] ++
      (if cfg.watchProcesses = [] then [] else [⟨"process", .host, .optional, cfg.hostInterval⟩]) ++
      (if cfg.probeTargets.isEmpty then []
        else [⟨"endpoint-probe", .watcher, .optional, cfg.hostInterval⟩]) ++
      (if cfg.containerCgroup = "" then []
        else [⟨"container", .harness, .optional, cfg.hostInterval⟩]) ++
      if cfg.dataRoot = "" then [] else [⟨"discovery", .watcher, .optional, cfg.selfInterval⟩]

end Config

def bootNames : List String := ["host", "self", "process", "endpoint-probe", "container", "discovery"]

theorem name_of_mem_sources {cfg : Config} {boot : List SourceDescriptor}
    (h : cfg.sources = .ok boot) {desc : SourceDescriptor} (hDesc : desc ∈ boot) :
    desc.name ∈ bootNames := by
  unfold Config.sources at h
  split at h
  · cases h
  · obtain rfl := Except.ok.inj h
    simp only [List.mem_append] at hDesc
    rcases hDesc with (((hDesc | hDesc) | hDesc) | hDesc) | hDesc
    · simp only [List.mem_cons, List.not_mem_nil, or_false] at hDesc
      rcases hDesc with rfl | rfl <;> simp [bootNames]
    all_goals
      split at hDesc
      · cases hDesc
      · rw [List.mem_singleton.mp hDesc]
        simp [bootNames]

end HarnessSphere
