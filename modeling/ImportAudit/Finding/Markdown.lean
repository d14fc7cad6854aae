import ImportAudit.Finding.Listing

/-! The findings as a Markdown document. A section appears only if it has findings. -/
namespace ImportAudit.Finding

def code (text : String) : String := "`" ++ text ++ "`"

def filesSection (root : Path) (unused : List Path) : List String :=
  if unused.isEmpty then []
  else ["## Unused Files", ""] ++ unused.map (fun file => "- " ++ code (root.renderFrom file)) ++ [""]

def bindingRow (root : Path) (finding : UnusedBinding) : String :=
  "| " ++ code (root.renderFrom finding.file) ++ " | " ++ toString finding.line ++ " | " ++
    finding.binding.kind.label ++ " | " ++ code finding.describe ++ " | " ++
    code (root.renderFrom finding.target) ++ " |"

def bindingsSection (root : Path) (bindings : List UnusedBinding) : List String :=
  if bindings.isEmpty then []
  else
    ["## Unused Imports", "", "| File | Line | Kind | Name | From |",
      "|------|------|------|------|------|"] ++ bindings.map (bindingRow root) ++ [""]

def targetItem (root : Path) (finding : UnusedTarget) : String :=
  "- imported in " ++ code (root.renderFrom finding.file ++ ":" ++ toString finding.line)

def groupSection (root : Path) : String × List UnusedTarget → List String
  | (heading, group) => ["### " ++ code heading, ""] ++ group.map (targetItem root) ++ [""]

def targetsSection (root : Path) (targets : List UnusedTarget) : List String :=
  if targets.isEmpty then []
  else
    ["## Files Imported But Not Used", ""] ++ (byTarget root targets).flatMap (groupSection root)

/-- How many findings of all kinds there are. -/
def total (unused : List Path) (bindings : List UnusedBinding) (targets : List UnusedTarget) : Nat :=
  unused.length + bindings.length + targets.length

def markdown (root : Path) (analyzed : Nat) (unused : List Path) (bindings : List UnusedBinding)
    (targets : List UnusedTarget) : String :=
  let found := total unused bindings targets
  Text.joinLines <|
    ["# Unused Code Report", "", "**Path:** " ++ code root.render,
      "**Files analyzed:** " ++ toString analyzed, "**Findings:** " ++ toString found, ""] ++
    if found = 0 then ["✅ **Nothing unused found!**"]
    else filesSection root unused ++ bindingsSection root bindings ++ targetsSection root targets

end ImportAudit.Finding
