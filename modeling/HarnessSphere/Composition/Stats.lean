import HarnessSphere.Composition.Agreement

/-! # Discovery's report on itself

Discovery holds no sink. It leaves two numbers behind it, and a source of its own reads them.
-/

namespace HarnessSphere

open Machine

structure DiscoveryStats where
  descriptor : SourceDescriptor

namespace DiscoveryStats

def new (interval : Duration) : DiscoveryStats := ⟨⟨"discovery", .watcher, .optional, interval⟩⟩

def probe : ProbeResult := .ready

def collect (workspaces scans : Nat) : List Signal × Except CollectError Unit :=
  ([(Metric.now "harnesssphere.discovery.workspaces" .gauge workspaces).intoSignal,
    (Metric.now "harnesssphere.discovery.scans" .gauge scans).intoSignal], .ok ())

end DiscoveryStats

def ControlEvent.isPublished : ControlEvent → Bool
  | .published => true
  | _ => false

/-- What happened until the last scan was through with its commands. -/
def untilPublished (events : List ControlEvent) : List ControlEvent :=
  events.rdropWhile fun e => !e.isPublished

/-- How many workspaces the last scan that was through had found. -/
def reportedWorkspaces (d : Discovery) (events : List ControlEvent) : Nat :=
  ((lastScan (untilPublished events)).map fun fs => (discover fs d.dataRoot).length).getD 0

section Reported

variable {d : Discovery} {e : ControlEvent}

theorem untilPublished_published (events : List ControlEvent) :
    untilPublished (events ++ [.published]) = events ++ [.published] :=
  List.rdropWhile_concat_neg _ _ _ (by simp [ControlEvent.isPublished])

theorem untilPublished_other (h : e.isPublished = false) (events : List ControlEvent) :
    untilPublished (events ++ [e]) = untilPublished events :=
  List.rdropWhile_concat_pos _ _ _ (by simp [h])

theorem reported_other (h : e.isPublished = false) (events : List ControlEvent) :
    reportedWorkspaces d (events ++ [e]) = reportedWorkspaces d events ∧
      (events ++ [e]).countP ControlEvent.isPublished = events.countP ControlEvent.isPublished := by
  rw [reportedWorkspaces, untilPublished_other h, List.countP_append]
  exact ⟨rfl, by simp [h]⟩

namespace ControlPlane

structure Reports (d : Discovery) (events : List ControlEvent) (s : ControlPlane) : Prop
    extends Follows d events s where
  scanned : s.scan = .waiting ∨ (lastScan events).isSome
  workspaces : s.workspaces = reportedWorkspaces d events
  scans : s.scans = events.countP ControlEvent.isPublished % 2 ^ 64

theorem Reports.other {events : List ControlEvent} {a b : ControlPlane} (h : Reports d events a)
    (hFollows : Follows d (events ++ [e]) b) (hOther : e.isPublished = false)
    (hScanned : b.scan = .waiting ∨ (lastScan (events ++ [e])).isSome)
    (hWorkspaces : b.workspaces = a.workspaces) (hScans : b.scans = a.scans) :
    Reports d (events ++ [e]) b := by
  obtain ⟨hReported, hCount⟩ := @reported_other d e hOther events
  refine ⟨hFollows, hScanned, ?_, ?_⟩
  · rw [hReported, hWorkspaces, h.workspaces]
  · rw [hCount, hScans, h.scans]

theorem reports_of_run {criticalThreshold : UInt32} {boot : List SourceDescriptor}
    (hBoot : ∀ desc ∈ boot, desc.name ∈ bootNames) {events : List ControlEvent} {s : ControlPlane}
    (hRun : Run (step d) SlashFreeScan (new criticalThreshold boot) events s) :
    Reports d events s := by
  induction hRun with
  | nil => exact ⟨follows_of_run hBoot .nil, .inl rfl, rfl, rfl⟩
  | @snoc a s events e hRun hOk hStep ih =>
    have hFollows := follows_of_run hBoot (hRun.snoc hOk hStep)
    have hScanned := ih.scanned
    cases act_of_step hStep with
    | scanned fs known current hScan hKnown hCurrent =>
      exact ih.other hFollows rfl (.inr (by rw [lastScan_concat]; rfl)) rfl rfl
    | sent current cmd rest hScan =>
      rw [hScan] at hScanned
      obtain hWaiting | hSome := hScanned
      · cases hWaiting
      · exact ih.other hFollows rfl (.inr (by rwa [lastScan_other rfl])) rfl rfl
    | published current hScan =>
      rw [hScan] at hScanned
      obtain hWaiting | hSome := hScanned
      · cases hWaiting
      obtain ⟨fs, hLast⟩ := Option.isSome_iff_exists.mp hSome
      refine ⟨hFollows, .inl rfl, ?_, ?_⟩
      · -- what is published is the scan under way, and its names are the workspaces it found
        have hPerm := ih.target fs hLast
        rw [target, hScan] at hPerm
        have hNodup := sourceNames_nodup (ih.slashFree fs hLast) d.dataRoot
        have hKeys : current.keys.Perm (byName (discover fs d.dataRoot)).keys := hPerm.map Sigma.fst
        rw [reportedWorkspaces, untilPublished_published, lastScan_other rfl, hLast]
        change current.keys.length = (discover fs d.dataRoot).length
        rw [hKeys.length_eq, (keys_byName_perm hNodup).length_eq, List.length_map]
      · rw [List.countP_append]
        change (a.scans + 1) % 2 ^ 64 = _
        rw [ih.scans, Nat.mod_add_mod]
        rfl
    | received cmd queue supervisor hQueue hTaken =>
      exact ih.other hFollows rfl (by rwa [lastScan_other rfl]) rfl rfl
    | supervised other supervisor hOther hTaken =>
      exact ih.other hFollows rfl (by rwa [lastScan_other rfl]) rfl rfl

/-- At every moment, in the middle of a scan too, the source reports the scan that was last through
with its commands, and how many were. -/
theorem stats_report_the_last_scan (d : Discovery) (cfg : Config) (boot : List SourceDescriptor)
    (hBoot : cfg.sources = .ok boot) (events : List ControlEvent) (s : ControlPlane)
    (hRun : Run (step d) SlashFreeScan (new cfg.criticalThreshold boot) events s) :
    gaugeWrites (DiscoveryStats.collect s.workspaces s.scans).1 =
      [(("harnesssphere.discovery.workspaces", []), (reportedWorkspaces d events : F64)),
        (("harnesssphere.discovery.scans", []),
          ((events.countP ControlEvent.isPublished % 2 ^ 64 : ℕ) : F64))] := by
  have h := reports_of_run (fun _ => name_of_mem_sources hBoot) hRun
  rw [← h.workspaces, ← h.scans]
  rfl

theorem the_first_scan_is_reported : ∃ s : ControlPlane,
    exec (step sampleDiscovery) (new sampleConfig.criticalThreshold sampleBoot) oneWorkspaceFound =
        some s ∧
      gaugeWrites (DiscoveryStats.collect s.workspaces s.scans).1 =
        [(("harnesssphere.discovery.workspaces", []), 1), (("harnesssphere.discovery.scans", []), 1)] := by
  have hSome : (exec (step sampleDiscovery) (new sampleConfig.criticalThreshold sampleBoot)
      oneWorkspaceFound).isSome := by decide
  obtain ⟨s, hExec⟩ := Option.isSome_iff_exists.mp hSome
  have hRun : Run (step sampleDiscovery) SlashFreeScan (new sampleConfig.criticalThreshold sampleBoot)
      oneWorkspaceFound s := by
    apply (run_of_exec hExec).of_labels
    intro e he a fs hfs
    have hTree : fs ∈ oneWorkspaceFound.filterMap ControlEvent.tree :=
      List.mem_filterMap.mpr ⟨e, he, hfs⟩
    obtain rfl := List.mem_singleton.mp hTree
    exact Disk.slashFree (by decide)
  have hReport := stats_report_the_last_scan sampleDiscovery sampleConfig sampleBoot rfl
    oneWorkspaceFound s hRun
  have hReported : reportedWorkspaces sampleDiscovery oneWorkspaceFound = 1 := by decide
  have hScans : oneWorkspaceFound.countP ControlEvent.isPublished = 1 := by decide
  rw [hReported, hScans] at hReport
  exact ⟨s, hExec, hReport⟩

end ControlPlane

end Reported

end HarnessSphere
