import ImportAudit.Finding.Imports
import ImportAudit.Finding.Markdown
import ImportAudit.Reach
import ImportAudit.Settings
import ImportAudit.Survey

/-! An audit of a tree. It can be run again and again, in any mode: files once read are not read
again, and findings of an analysis that a run leaves out stay as they are. -/
namespace ImportAudit

/-- Which analyses a run makes. -/
inductive Mode
  | files
  | imports
  | all
deriving DecidableEq, Repr, Inhabited

namespace Mode

def name : Mode → String
  | files => "files"
  | imports => "imports"
  | all => "all"

def ofName? (name : String) : Option Mode := [files, imports, all].find? (·.name = name)

def tracesFiles : Mode → Bool
  | imports => false
  | _ => true

def checksImports : Mode → Bool
  | files => false
  | _ => true

end Mode

/-- A line that a run prints: a step of the run, or a note for those who follow it closely. -/
inductive Line
  | step (text : String)
  | note (event : Event)
deriving DecidableEq, Repr

/-- The lines as printed; notes are indented, and left out unless asked for. -/
def Line.renderAll (verbose : Bool) (lines : List Line) : String :=
  String.join <| lines.map fun
    | .step text => text ++ "\n"
    | .note event => if verbose then "   " ++ event.message ++ "\n" else ""

/-- Settings, what the last runs read and found, and the last mode asked for. -/
structure Audit where
  settings : Settings
  mode : Mode
  files : List Path
  sources : List Source
  codebase : Codebase
  reachable : List Path
  unusedFiles : List Path
  unusedBindings : List UnusedBinding
  unusedTargets : List UnusedTarget
deriving DecidableEq, Repr, Inhabited

inductive Audit.Fault
  | unknownMode (name : String)
  | disk (fault : Disk.Fault)
  | script (fault : Script.Fault)
deriving DecidableEq, Repr

def Audit.Fault.message : Audit.Fault → String
  | .unknownMode name => "Unknown mode: " ++ name
  | .disk fault => fault.message
  | .script fault => fault.message

/-- A run: whether nothing unused is left, or why it stopped, the audit after it, and its lines. -/
structure Audit.Run where
  outcome : Except Audit.Fault Bool
  audit : Audit
  lines : List Line

namespace Audit

def start (settings : Settings) : Audit :=
  ⟨settings, .all, [], [], .empty settings.root settings.extensions settings.root_anchor_ne, [], [], [],
    []⟩

/-- Nothing unused is on record. -/
def isClean (audit : Audit) : Bool :=
  audit.unusedFiles.isEmpty && audit.unusedBindings.isEmpty && audit.unusedTargets.isEmpty

def surveyRules (audit : Audit) : Survey.Rules := ⟨audit.settings.extensions, audit.settings.ignored⟩

/-- Reads the surveyed files. -/
def readFiles (disk : Disk) (files : List Path) (audit : Audit) : Audit × List Line :=
  let loaded := audit.codebase.loadAll disk files
  ({ audit with files, sources := loaded.value, codebase := loaded.codebase },
    .step ("   Found " ++ toString files.length ++ " files to analyze") ::
      .step "🔗 Building import graph..." :: loaded.events.map .note)

def tracing : Line := .step "🌳 Tracing reachability from entry points..."

/-- Finds the files that no entry point reaches. -/
def traceFiles (disk : Disk) (audit : Audit) : Audit × List Line :=
  let reached := audit.codebase.reach disk audit.settings.entryPoints
  ({ audit with
      codebase := reached.codebase
      reachable := reached.value
      unusedFiles := ImportAudit.unusedFiles audit.files reached.value },
    tracing ::
      (reached.events ++ unusedFileEvents audit.files reached.value).map .note)

/-- Finds the unused imports of the files read. -/
def judgeImports (disk : Disk) (audit : Audit) : Run :=
  let announced : Line := .step "💀 Checking unused imports..."
  match checkImports disk audit.sources audit.codebase with
  | .error fault => ⟨.error (.script fault), audit, [announced]⟩
  | .ok check =>
      let judged :=
        { audit with
          codebase := check.codebase
          unusedBindings := check.bindings
          unusedTargets := check.targets }
      ⟨.ok judged.isClean, judged, announced :: check.events.map .note⟩

/-- The analyses of the audit's mode, after its files have been read. -/
def analyze (disk : Disk) (audit : Audit) : Run :=
  let (traced, traceLines) :=
    if audit.mode.tracesFiles then audit.traceFiles disk else (audit, [])
  if audit.mode.checksImports then
    let judged := traced.judgeImports disk
    { judged with lines := traceLines ++ judged.lines }
  else ⟨.ok traced.isClean, traced, traceLines⟩

/-- Surveys and reads the files in a mode, then goes on with an analysis of them. -/
def runWith (disk : Disk) (mode : Mode) (analysis : Audit → Run) (audit : Audit) : Run :=
  let audit := { audit with mode }
  let announced : Line := .step "🔍 Scanning files..."
  match Survey.events audit.surveyRules disk audit.settings.root with
  | .error fault => ⟨.error (.disk fault), audit, [announced]⟩
  | .ok events =>
      let (ready, readLines) := audit.readFiles disk (Survey.files events)
      let analyzed := analysis ready
      { analyzed with lines := announced :: events.map .note ++ readLines ++ analyzed.lines }

/-- Runs the audit in a mode given by name. -/
def run (disk : Disk) (modeName : String) (audit : Audit) : Run :=
  match Mode.ofName? modeName with
  | none => ⟨.error (.unknownMode modeName), audit, []⟩
  | some mode => audit.runWith disk mode (analyze disk)

/-- The listings of the analyses that the last mode makes. -/
def listing (audit : Audit) : String :=
  let root := audit.settings.root
  Text.joinLines <|
    (if audit.mode.tracesFiles then [Finding.filesListing root audit.unusedFiles] else []) ++
    (if audit.mode.checksImports then
      [Finding.importsListing root audit.unusedBindings audit.unusedTargets] else [])

def report (audit : Audit) : String :=
  Finding.markdown audit.settings.root audit.files.length audit.unusedFiles audit.unusedBindings
    audit.unusedTargets

/-- What is printed to sum up a run. -/
def summary (audit : Audit) : String := "\n" ++ audit.listing ++ "\n"

end Audit
end ImportAudit
