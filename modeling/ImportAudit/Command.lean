import ImportAudit.Command.Arguments
import ImportAudit.Settings.Document

/-! The command: it builds settings from a file and the arguments, runs an audit, and prints a
summary or a report. -/
namespace ImportAudit.Command

/-- Why the command broke off without an exit code of its own. -/
inductive Fault
  | settings (fault : Settings.Fault)
  | audit (fault : Audit.Fault)
  | entryWithheld
  | output (fault : Disk.Fault)
deriving DecidableEq, Repr

def Fault.message : Fault → String
  | .settings fault => fault.message
  | .audit fault => fault.message
  | .entryWithheld => "an entry point that has no text"
  | .output fault => fault.message

/-- The exit code, what was printed, and the disk afterwards. -/
structure Outcome where
  result : Except Fault Nat
  printed : String
  disk : Disk

/-- An argument that is there and not empty. -/
def given (argument : Option String) : Option String := argument.filter (!·.isEmpty)

/-- The settings of the file, or the default ones, with what the arguments override. -/
def settingsFor (disk : Disk) (working : Path) (arguments : Arguments) :
    Except Settings.Fault Settings := do
  let settings ←
    match given arguments.config with
    | some file => Settings.load disk working (.parse file)
    | none => (Settings.ofRoot working (.parse Settings.defaultRoot)).mapError .disk
  let root ←
    match given arguments.path with
    | some path => (Settings.absolute working (.parse path)).mapError .disk
    | none => pure ⟨settings.root, settings.resolved⟩
  let entries :=
    if arguments.entries.isEmpty then settings.entries else arguments.entries.filterMap id
  return .under root entries settings.extensions settings.ignored

/-- Faults of the settings that are told to the user: those of the disk, of bytes that are no text,
and of values that are not as they should be. Others break the command off. -/
def isTold : Settings.Fault → Bool
  | .unorderedKeys => false
  | .yaml fault =>
      match fault with
      | .undecodable _ | .badCodePoint | .badInt _ _ | .badFloat _ | .tooManyDigits _
      | .badMoment _ => true
      | _ => false
  | _ => true

def exitCode (passed : Bool) : Nat := if passed then 0 else 1

/-- Prints the summary, or writes or prints the report. -/
def conclude (disk : Disk) (working : Path) (arguments : Arguments) (audit : Audit) :
    Except Disk.Fault (String × Disk) := do
  if !arguments.report then return (audit.summary, disk)
  match given arguments.output with
  | none => return ("\n" ++ audit.report ++ "\n", disk)
  | some output =>
      let file := Path.parse output
      let disk ← disk.writeAs (working.join file) file (Text.Utf8.encode audit.report.toList)
      return ("\n📄 Report written to: " ++ output ++ "\n", disk)

/-- A withheld mode is called by what was given for it, an empty list. -/
def modeName (arguments : Arguments) : String := (arguments.mode.map Mode.name).getD "[]"

/-- Whether the entry points are needed and one of them was withheld. -/
def lacksEntry (arguments : Arguments) : Bool :=
  arguments.entries.contains none && arguments.mode.any Mode.tracesFiles

/-- Audits the tree of some settings as far as its entry points are needed. -/
def auditToEntries (disk : Disk) (mode : Mode) (arguments : Arguments) (settings : Settings) :
    Outcome :=
  let run := (Audit.start settings).runWith disk mode fun audit => ⟨.ok false, audit, [Audit.tracing]⟩
  let printed := Line.renderAll arguments.verbose run.lines
  match run.outcome with
  | .error fault => ⟨.error (.audit fault), printed, disk⟩
  | .ok _ => ⟨.error .entryWithheld, printed, disk⟩

/-- Audits the tree of some settings. -/
def auditWith (disk : Disk) (working : Path) (arguments : Arguments) (settings : Settings) :
    Outcome :=
  let run := (Audit.start settings).run disk (modeName arguments)
  let printed := Line.renderAll arguments.verbose run.lines
  match run.outcome with
  | .error fault => ⟨.error (.audit fault), printed, disk⟩
  | .ok passed =>
      match conclude disk working arguments run.audit with
      | .error fault => ⟨.error (.output fault), printed, disk⟩
      | .ok (conclusion, disk) => ⟨.ok (exitCode passed), printed ++ conclusion, disk⟩

/-- Runs the command for arguments that fit. -/
def runWith (disk : Disk) (working : Path) (arguments : Arguments) : Outcome :=
  match settingsFor disk working arguments with
  | .error fault =>
      if isTold fault then ⟨.ok 1, "❌ Invalid config: " ++ fault.message ++ "\n", disk⟩
      else ⟨.error (.settings fault), "", disk⟩
  | .ok settings =>
      if disk.isFolder settings.root then
        match arguments.mode with
        | some mode =>
            if lacksEntry arguments then auditToEntries disk mode arguments settings
            else auditWith disk working arguments settings
        | none => auditWith disk working arguments settings
      else ⟨.ok 1, "❌ Path not found: " ++ settings.root.render ++ "\n", disk⟩

def usage : String :=
  "usage: [--path ROOT] [--entry FILE]... [--config FILE] [--mode files|imports|all] [--report] " ++
    "[--output FILE] [--verbose]"

/-- Runs the command. -/
def run (disk : Disk) (working : Path) (arguments : List String) : Outcome :=
  match Arguments.parse arguments with
  | .error .misuse => ⟨.ok 2, "", disk⟩
  | .error .help => ⟨.ok 0, usage ++ "\n", disk⟩
  | .ok arguments => runWith disk working arguments

end ImportAudit.Command
