import ImportAudit.Finding.Imports

/-! The findings as plain text. Paths within the root are written as seen from it. -/
namespace ImportAudit

def UnusedBinding.describe (finding : UnusedBinding) : String :=
  let binding := finding.binding
  if binding.isRenamed then binding.importName ++ " as " ++ binding.localName
  else binding.localName

namespace Finding

/-- Puts a finding into the group of its heading; a new heading comes last. -/
def insertGroup (heading : String) (finding : UnusedTarget) :
    List (String × List UnusedTarget) → List (String × List UnusedTarget)
  | [] => [(heading, [finding])]
  | (other, group) :: groups =>
      if other = heading then (other, group ++ [finding]) :: groups
      else (other, group) :: insertGroup heading finding groups

/-- The findings by target, in the order in which the targets first appear. -/
def byTarget (root : Path) (findings : List UnusedTarget) : List (String × List UnusedTarget) :=
  findings.foldl (fun groups finding =>
    insertGroup (root.renderFrom finding.target) finding groups) []

def filesLines (root : Path) (unused : List Path) : List String :=
  "UNUSED FILES:" :: unused.map root.renderFrom

def filesListing (root : Path) (unused : List Path) : String :=
  Text.joinLines (filesLines root unused)

def bindingLine (root : Path) (finding : UnusedBinding) : String :=
  root.renderFrom finding.file ++ ":" ++ toString finding.line ++ " - Unused " ++
    finding.binding.kind.label ++ " import '" ++ finding.describe ++ "' from '" ++
    root.renderFrom finding.target ++ "'"

def targetLine (root : Path) (finding : UnusedTarget) : String :=
  "  - Imported in " ++ root.renderFrom finding.file ++ ":" ++ toString finding.line ++
    " but not used"

/-- The lines of one group: its heading after an empty line, and a line for each finding. -/
def groupLines (root : Path) : String × List UnusedTarget → List String
  | (heading, group) => ["", heading ++ ":"] ++ group.map (targetLine root)

def importsLines (root : Path) (bindings : List UnusedBinding) (targets : List UnusedTarget) :
    List String :=
  ["", "=== UNUSED IMPORTS ===", ""] ++
    (if bindings.isEmpty then ["No unused imports found!"] else []) ++
    bindings.map (bindingLine root) ++
    ["", "=== FILES IMPORTED BUT NOT USED ===", ""] ++
    (if targets.isEmpty then ["No unused file imports found!"] else []) ++
    (byTarget root targets).flatMap (groupLines root)

def importsListing (root : Path) (bindings : List UnusedBinding) (targets : List UnusedTarget) :
    String :=
  Text.joinLines (importsLines root bindings targets)

end Finding
end ImportAudit
