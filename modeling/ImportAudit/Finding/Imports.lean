import ImportAudit.Codebase
import ImportAudit.Script.Usage

/-! Unused imports. A binding is reported when the text does not use it. A target is reported, once
for each importing file, when some link to it has bindings and uses none of them; a target that
exports nothing is taken to be imported for its effects. -/
namespace ImportAudit

/-- A name that `file` imports from `target` and never uses. -/
structure UnusedBinding where
  file : Path
  target : Path
  binding : Script.Binding
  line : Int
deriving DecidableEq, Repr, Inhabited

/-- A file that `file` imports without using anything of it; `line` is that of the first import. -/
structure UnusedTarget where
  file : Path
  target : Path
  line : Int
deriving DecidableEq, Repr, Inhabited

/-- The findings so far, the codebase, and what was noticed. -/
structure ImportCheck where
  bindings : List UnusedBinding
  targets : List UnusedTarget
  codebase : Codebase
  events : List Event

namespace ImportCheck

/-- The bindings among those of a mention at `span` that the text does not use. -/
def unusedAmong (text : Text) (span : Span) :
    List Script.Binding → Except Script.Fault (List Script.Binding)
  | [] => .ok []
  | binding :: bindings => do
      let used ← Script.isBindingUsed text span binding
      let others ← unusedAmong text span bindings
      return if used then others else binding :: others

/-- The finding for an unused binding; a binding of unknown line is reported at its link. -/
def bindingFinding (source : Source) (link : Link) (binding : Script.Binding) : UnusedBinding :=
  ⟨source.path, link.target, binding, if binding.line = 0 then link.line else binding.line⟩

def bindingEvent (source : Source) (binding : Script.Binding) : Event :=
  .unusedBinding binding.kind binding.localName source.path binding.line

/-- Reports a target that a source imports in vain, unless it was reported for that source or
exports nothing. -/
def reportTarget (disk : Disk) (source : Source) (link : Link) (check : ImportCheck) :
    ImportCheck :=
  let exports := check.codebase.exportsOf disk link.target
  let loaded := { check with codebase := exports.codebase, events := check.events ++ exports.events }
  if exports.value.isEmpty then
    { loaded with events := loaded.events ++ [.effectAssumed link.target] }
  else if loaded.targets.any fun seen => seen.file = source.path ∧ seen.target = link.target then
    loaded
  else { loaded with targets := loaded.targets ++ [⟨source.path, link.target, link.line⟩] }

def checkLink (disk : Disk) (source : Source) (check : ImportCheck) (link : Link) :
    Except Script.Fault ImportCheck := do
  let unused ← unusedAmong source.text link.span link.bindings
  let noted :=
    { check with
      bindings := check.bindings ++ unused.map (bindingFinding source link)
      events := check.events ++ unused.map (bindingEvent source) }
  if unused.isEmpty ∨ unused.length < link.bindings.length then return noted
  else return noted.reportTarget disk source link

def checkSource (disk : Disk) (check : ImportCheck) (source : Source) :
    Except Script.Fault ImportCheck :=
  source.links.foldlM (checkLink disk source) check

end ImportCheck

/-- The unused imports of some sources. -/
def checkImports (disk : Disk) (sources : List Source) (codebase : Codebase) :
    Except Script.Fault ImportCheck :=
  sources.foldlM (ImportCheck.checkSource disk) ⟨[], [], codebase, []⟩

end ImportAudit
