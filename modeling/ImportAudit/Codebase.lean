import ImportAudit.Event
import ImportAudit.Source

/-! The files read so far. A file is read and parsed once, at the first request that finds it on
disk; from then on the codebase answers from what it has read. -/
namespace ImportAudit

/-- The sources read so far, in the order in which they were read. The root is absolute: below a
relative one `..` leads on to ever new paths of the same files. -/
structure Codebase where
  root : Path
  extensions : List String
  sources : List Source
  absolute : root.anchor ≠ .relative
deriving DecidableEq, Repr

instance : Inhabited Codebase := ⟨.bare .root, [], [], by decide⟩

/-- A result, the codebase after it, and what was noticed meanwhile. -/
structure Codebase.Step (α : Type) where
  value : α
  codebase : Codebase
  events : List Event

namespace Codebase

def empty (root : Path) (extensions : List String)
    (absolute : root.anchor ≠ .relative := by decide) : Codebase :=
  ⟨root, extensions, [], absolute⟩

def paths (codebase : Codebase) : List Path := codebase.sources.map Source.path

def find? (codebase : Codebase) (path : Path) : Option Source :=
  codebase.sources.find? (·.path = path)

/-- The source at a path, read now if it was not read before; none if there is no such file. -/
def load (disk : Disk) (path : Path) (codebase : Codebase) : Step (Option Source) :=
  match codebase.find? path with
  | some source => ⟨some source, codebase, []⟩
  | none =>
      match disk.node path with
      | .ok (.file bytes) =>
          let source := Source.parse disk codebase.root codebase.extensions path bytes
          ⟨some source, { codebase with sources := codebase.sources ++ [source] },
            [.parsed path source.links.length source.exports.length]⟩
      | _ => ⟨none, codebase, []⟩

/-- The sources at some paths, without those that are missing. -/
def loadAll (disk : Disk) : List Path → Codebase → Step (List Source)
  | [], codebase => ⟨[], codebase, []⟩
  | path :: paths, codebase =>
      let first := codebase.load disk path
      let others := loadAll disk paths first.codebase
      ⟨first.value.toList ++ others.value, others.codebase, first.events ++ others.events⟩

/-- The names that the file at a path exports; none if there is no such file. -/
def exportsOf (disk : Disk) (path : Path) (codebase : Codebase) : Step (List String) :=
  let loaded := codebase.load disk path
  ⟨(loaded.value.map Source.exports).getD [], loaded.codebase, loaded.events⟩

end Codebase
end ImportAudit
