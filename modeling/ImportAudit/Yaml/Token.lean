import ImportAudit.Yaml.Place

/-! The tokens of a YAML text. -/
namespace ImportAudit.Yaml

inductive Token
  | streamStart
  | streamEnd
  | version (major minor : Nat)
  | handle (name expansion : String)
  | otherDirective
  | documentStart
  | documentEnd
  | blockSequenceStart
  | blockMappingStart
  | blockEnd
  | flowSequenceStart
  | flowSequenceEnd
  | flowMappingStart
  | flowMappingEnd
  | blockEntry
  | flowEntry
  | key
  | value
  | reference (name : String)
  | anchor (name : String)
  | tag (handle : Option String) (rest : String)
  | scalar (text : Codes) (plain : Bool)
deriving DecidableEq, Repr

/-- The tokens before a fault, and the fault. Without a fault the last token ends the stream. -/
structure Tokens where
  list : List Token
  fault : Option Fault
deriving Repr

end ImportAudit.Yaml
