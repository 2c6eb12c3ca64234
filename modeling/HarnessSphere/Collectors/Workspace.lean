import HarnessSphere.Domain.Ports
import HarnessSphere.Collectors.Text

/-! # Workspaces on disk

The tenant tree is walked four levels deep, one directory at a time; a directory that cannot be
read counts as empty. Inside a workspace the collectors look for one leaf under each child
directory of the right name.
-/

namespace HarnessSphere

structure Workspace where
  tenant : String
  subscription : String
  agent : String
  user : String
  root : Path
  deriving DecidableEq, Repr

def leafUnder (dir : Path) (named : String → Bool) (leaf : String) (is : Path → Bool)
    (e : DirEntry) : Option Path := do
  let name ← OsString.toStr e.fileName
  if !named name then none
  else
    let d := (e.path dir).join leaf
    if is d then some d else none

def childrenWith (fs : Fs) (dir : Path) (named : String → Bool) (leaf : String)
    (is : Path → Bool) : List Path :=
  ((fs.entries dir).filterMap (leafUnder dir named leaf is)).insertionSort (· ≤ ·)

def isWorkspaceName (name : String) : Bool := name = "workspace" || startsWith name "workspace-"

namespace Workspace

variable (fs : Fs) (w : Workspace)

def sourceName : String :=
  "session:" ++ w.tenant ++ "/" ++ w.subscription ++ "/" ++ w.agent ++ "/" ++ w.user

def workspaceSubdirs (leaf : String) : List Path :=
  childrenWith fs w.root isWorkspaceName leaf fs.isDir

def sessionDirs : List Path := childrenWith fs w.root isWorkspaceName "sessions" fs.isDir

def skillDirs : List Path := w.workspaceSubdirs fs "skills"

def memoryDirs : List Path := w.workspaceSubdirs fs "memory"

def graphFiles : List Path :=
  childrenWith fs w.root (startsWith · "memory-graph") "memory.jsonl" fs.isFile

/-- The tenant tuple, stamped on every metric of a workspace. -/
def tag (source : String) (m : Metric) : Metric :=
  ((((m.attr "crab.tenant" (.str w.tenant)).attr "crab.subscription" (.str w.subscription)).attr
    "crab.agent" (.str w.agent)).attr "crab.user" (.str w.user)).attr "harness.name" (.str source)

def tags (source : String) : Attributes :=
  [("crab.tenant", .str w.tenant), ("crab.subscription", .str w.subscription),
    ("crab.agent", .str w.agent), ("crab.user", .str w.user), ("harness.name", .str source)]

def series (source name : String) (more : Attributes) : Series := (name, w.tags source ++ more)

theorem series_eq_iff (source name name' : String) (more more' : Attributes) :
    w.series source name more = w.series source name' more' ↔ name = name' ∧ more = more' := by
  simp [series]

def probe : ProbeResult :=
  if fs.isDir w.root then .ready else .unavailable ("workspace gone: " ++ w.root.display)

end Workspace

theorem insertionSort_eq_of_perm {α : Type*} {r : α → α → Prop} [DecidableRel r] [Std.Total r]
    [IsTrans α r] [Std.Antisymm r] {xs ys : List α} (h : xs.Perm ys) :
    xs.insertionSort r = ys.insertionSort r :=
  List.Perm.eq_of_pairwise' (List.pairwise_insertionSort r xs) (List.pairwise_insertionSort r ys)
    ((List.perm_insertionSort r xs).trans (h.trans (List.perm_insertionSort r ys).symm))

theorem leafUnder_eq_some_iff {dir q : Path} {named : String → Bool} {leaf : String}
    {is : Path → Bool} {e : DirEntry} :
    leafUnder dir named leaf is e = some q ↔
      (∃ name, OsString.toStr e.fileName = some name ∧ named name) ∧
        q = (e.path dir).join leaf ∧ is q := by
  simp only [leafUnder, Option.bind_eq_bind, Option.bind_eq_some_iff]
  constructor
  · rintro ⟨name, hName, hq⟩
    cases hNamed : named name with
    | false => simp [hNamed] at hq
    | true =>
      simp only [hNamed, Bool.not_true, Bool.false_eq_true, if_false, Option.ite_none_right_eq_some,
        Option.some.injEq] at hq
      obtain ⟨hIs, rfl⟩ := hq
      exact ⟨⟨name, hName, hNamed⟩, rfl, hIs⟩
  · rintro ⟨⟨name, hName, hNamed⟩, rfl, hIs⟩
    exact ⟨name, hName, by simp [hNamed, hIs]⟩

theorem mem_childrenWith {fs : Fs} {dir q : Path} {named : String → Bool} {leaf : String}
    {is : Path → Bool} :
    q ∈ childrenWith fs dir named leaf is ↔
      ∃ e ∈ fs.entries dir, (∃ name, OsString.toStr e.fileName = some name ∧ named name) ∧
        q = (e.path dir).join leaf ∧ is q := by
  simp only [childrenWith, List.mem_insertionSort, List.mem_filterMap, leafUnder_eq_some_iff]

theorem childrenWith_nodup (fs : Fs) (dir : Path) (named : String → Bool) (leaf : String)
    (is : Path → Bool) : (childrenWith fs dir named leaf is).Nodup := by
  refine (List.perm_insertionSort _ _).nodup_iff.mpr ?_
  apply fs.nodup_filterMap_entries dir [OsString.ofStr leaf]
  intro e q hq
  exact (leafUnder_eq_some_iff.mp hq).2.1

/-- The order of `Vec<(String, PathBuf)>::sort`. -/
def nameThenPath (a b : String × Path) : Prop := a.1 < b.1 ∨ (a.1 = b.1 ∧ a.2 ≤ b.2)

instance : DecidableRel nameThenPath := fun a b =>
  inferInstanceAs (Decidable (a.1 < b.1 ∨ (a.1 = b.1 ∧ a.2 ≤ b.2)))

def subdirs (fs : Fs) (dir : Path) : List (String × Path) :=
  (((fs.entries dir).filter fun e => fs.isDir (e.path dir)).filterMap fun e =>
    (OsString.toStr e.fileName).map fun name => (name, e.path dir)).insertionSort nameThenPath

/-- `<data_root>/tenants/*/subscriptions/*/agents/*/users/*`. -/
def discover (fs : Fs) (dataRoot : Path) : List Workspace :=
  (subdirs fs (dataRoot.join "tenants")).flatMap fun (tenant, tdir) =>
    (subdirs fs (tdir.join "subscriptions")).flatMap fun (subscription, sdir) =>
      (subdirs fs (sdir.join "agents")).flatMap fun (agent, adir) =>
        (subdirs fs (adir.join "users")).map fun (user, udir) =>
          { tenant, subscription, agent, user, root := udir }

end HarnessSphere
