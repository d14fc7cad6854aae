import ImportAudit.Path
import ImportAudit.Script.Binding

/-! What an audit notices on its way, for those who want to follow it. -/
namespace ImportAudit

inductive Event
  | skipped (folder : Path)
  | scanned (file : Path)
  | parsed (file : Path) (links exports : Nat)
  | entryMissing (entry : Path)
  | reached (target via : Path)
  | unreached (file : Path)
  | unusedBinding (kind : Script.BindingKind) (name : String) (file : Path) (line : Int)
  | effectAssumed (target : Path)
deriving DecidableEq, Repr

namespace Event

def message : Event → String
  | skipped folder => "Skipped: " ++ folder.render
  | scanned file => "Scanned: " ++ file.render
  | parsed file links exports =>
      "Parsed: " ++ file.render ++ " (" ++ toString links ++ " imports, " ++ toString exports ++
        " exports)"
  | entryMissing entry => "Entry point not found: " ++ entry.render
  | reached target via => "Reached: " ++ target.render ++ " <- " ++ via.render
  | unreached file => "Unreached: " ++ file.render
  | unusedBinding kind name file line =>
      "Unused " ++ kind.label ++ " '" ++ name ++ "': " ++ file.render ++ ":" ++ toString line
  | effectAssumed target => "No exports, assumed side-effect import: " ++ target.render

def scanned? : Event → Option Path
  | scanned file => some file
  | _ => none

end Event
end ImportAudit
