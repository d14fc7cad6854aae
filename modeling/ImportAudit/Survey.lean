import ImportAudit.Disk
import ImportAudit.Event

/-! The survey of a folder: every source file below it, in ascending order of names at each level,
where hidden folders and folders to be ignored are passed by. -/
namespace ImportAudit

def declarationSuffix : String := ".d.ts"

/-- Hidden folders and folders named in the list. -/
def isIgnoredFolder (ignored : List String) (name : String) : Bool :=
  ['.'].isPrefixOf name.toList || ignored.contains name

/-- A file with one of the extensions that does not only declare types. -/
def isSourceFile (extensions : List String) (path : Path) : Bool :=
  extensions.contains path.suffix &&
    !declarationSuffix.toList.isSuffixOf path.name.toList

structure Survey.Rules where
  extensions : List String
  ignored : List String
deriving DecidableEq, Repr

namespace Survey

/-- What belongs to the names of one folder, in ascending order of the names. -/
def inNameOrder (named : List (String × List Event)) : List Event :=
  (named.mergeSort fun a b => a.1 ≤ b.1).flatMap Prod.snd

/-- What the survey meets under each name of a folder. -/
def byName (rules : Rules) (folder : Path) : Entries → List (String × List Event)
  | .nil => []
  | .file name _ others =>
      let path := folder.child name
      (name.text, if isSourceFile rules.extensions path then [.scanned path] else []) ::
        byName rules folder others
  | .folder name inside others =>
      let path := folder.child name
      (name.text, if isIgnoredFolder rules.ignored name.text then [.skipped path]
        else inNameOrder (byName rules path inside)) ::
        byName rules folder others

/-- The events of surveying a folder, in order. -/
def events (rules : Rules) (disk : Disk) (root : Path) : Except Disk.Fault (List Event) := do
  let inside ← disk.list root
  return inNameOrder (byName rules root inside)

/-- The source files that a survey met. -/
def files (events : List Event) : List Path := events.filterMap Event.scanned?

end Survey
end ImportAudit
