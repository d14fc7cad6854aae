import ImportAudit.Codebase

/-! Which files the entry points reach: a depth-first walk along the links, in the order of the
text, that stays within the root. The files that it leaves out are unused. -/
namespace ImportAudit

namespace Codebase

/-- A walk under way: the files visited so far in the order of their visits, the codebase, and what
was noticed. -/
structure Walk where
  visited : List Path
  codebase : Codebase
  events : List Event

namespace Walk

/-- Visits a file: it is read, and its links to files not yet visited are to be followed. -/
def visit (disk : Disk) (path : Path) (walk : Walk) : List Path × Walk :=
  let visited := walk.visited ++ [path]
  let loaded := walk.codebase.load disk path
  let targets := ((loaded.value.map Source.links).getD []).map Link.target
  let fresh := targets.filter (· ∉ visited)
  (fresh, ⟨visited, loaded.codebase,
    walk.events ++ loaded.events ++ fresh.reverse.map (.reached · path)⟩)

/-- A file that is not to be visited: it has been, or it lies outside the root. -/
def passesBy (walk : Walk) (path : Path) : Bool :=
  path ∈ walk.visited || !path.isWithin walk.codebase.root

/-- Visits the files on the stack and all that they lead to. `visits` bounds the number of files
that can still be visited. -/
def run (disk : Disk) : Nat → List Path → Walk → Walk
  | 0, _, walk => walk
  | visits + 1, stack, walk =>
      match stack.dropWhile walk.passesBy with
      | [] => walk
      | path :: stack =>
          let (fresh, next) := walk.visit disk path
          run disk visits (fresh ++ stack) next

/-- Walks from each entry point that is a file. -/
def fromEntries (disk : Disk) (visits : Nat) : List Path → Walk → Walk
  | [], walk => walk
  | entry :: entries, walk =>
      if disk.isFile entry then fromEntries disk visits entries (run disk visits [entry] walk)
      else
        fromEntries disk visits entries { walk with events := walk.events ++ [.entryMissing entry] }

def outcome (walk : Walk) : Step (List Path) := ⟨walk.visited, walk.codebase, walk.events⟩

end Walk

def linkCount : List Source → Nat
  | [] => 0
  | source :: sources => source.links.length + linkCount sources

/-- No walk visits more files. Each visited file is an entry point, the target of a link already
read, or found on disk through a folder or file there and either no addition or one of three for
each extension. -/
def visitLimit (disk : Disk) (entries : List Path) (codebase : Codebase) : Nat :=
  entries.length + linkCount codebase.sources +
    (disk.entries.size + 1) * (3 * codebase.extensions.length + 1)

/-- The files that the entry points reach, in the order in which they are visited. -/
def reach (disk : Disk) (entries : List Path) (codebase : Codebase) : Step (List Path) :=
  (Walk.fromEntries disk (codebase.visitLimit disk entries) entries ⟨[], codebase, []⟩).outcome

end Codebase

/-- The files that no entry point reaches, in the order of the survey. -/
def unusedFiles (files reachable : List Path) : List Path := files.filter (· ∉ reachable)

def unusedFileEvents (files reachable : List Path) : List Event :=
  (unusedFiles files reachable).map .unreached

end ImportAudit
