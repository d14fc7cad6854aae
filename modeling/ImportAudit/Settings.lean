import ImportAudit.Disk

/-! What an audit works on: the root of the tree, the entry points as seen from it, the extensions
of source files in order of preference, and the names of folders to pass by. -/
namespace ImportAudit

structure Settings where
  root : Path
  resolved : root.IsResolved
  entries : List String
  extensions : List String
  ignored : List String
deriving DecidableEq, Repr

namespace Settings

instance : Inhabited Settings := ⟨(default : Path).resolve, Path.resolve_isResolved _, [], [], []⟩

def defaultRoot : String := "src"

def defaultEntries : List String := ["index.ts"]

def defaultExtensions : List String := [".ts", ".tsx", ".js", ".jsx"]

def defaultIgnored : List String := ["node_modules"]

theorem root_anchor_ne (settings : Settings) : settings.root.anchor ≠ .relative :=
  settings.resolved.anchor_ne

/-- A path seen from the working folder, from the top of the disk and without `..`. -/
def absolute (working path : Path) : Except Disk.Fault { path : Path // path.IsResolved } :=
  if Disk.hasNul path then .error .nulInPath
  else .ok ⟨(working.join path).resolve, Path.resolve_isResolved _⟩

def under (root : { path : Path // path.IsResolved }) (entries extensions ignored : List String) :
    Settings :=
  ⟨root.val, root.property, entries, extensions, ignored⟩

/-- The default settings for a root. -/
def ofRoot (working root : Path) : Except Disk.Fault Settings := do
  let root ← absolute working root
  return under root defaultEntries defaultExtensions defaultIgnored

/-- The entry points as paths. -/
def entryPoints (settings : Settings) : List Path :=
  settings.entries.map fun entry => (settings.root.join (.parse entry)).normalize

end Settings
end ImportAudit
