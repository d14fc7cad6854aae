import ImportAudit.Script.Binding
import ImportAudit.Text.Blanking

/-! Whether a script uses what it imports, judged by the shape of the text around a name. -/
namespace ImportAudit.Script
open Pattern

/-- An occurrence of `name` that no identifier character touches and that no dot precedes; the value
is its offset. -/
def standalone (name : Text) : Pattern Nat := fun cursor =>
  match cursor.after? name with
  | none => .none
  | some after =>
      if cursor.prev.any (fun c => Text.isIdentifier c || c == '.') ||
          after.rest.head?.any Text.isIdentifier then .none
      else .only (cursor.offset, after)

/-- The contexts in which a standalone name counts as used. -/
inductive Usage
  | call
  | member
  | assignmentTarget
  | assignmentSource
  | destructuring
  | typePosition
  | returned
  | awaited
  | routeArgument
  | reexported
deriving DecidableEq, Repr

namespace Usage

def all : List Usage :=
  [call, member, assignmentTarget, assignmentSource, destructuring, typePosition, returned, awaited,
    routeArgument, reexported]

/-- An optional question mark and a dot that is not the first of two. -/
def accessor : Pattern Unit := do
  blankRun
  maybe (char '?')
  char '.'
  notBefore (· == '.')

def typeMark (c : Char) : Bool := c == ':' || c == '<' || c == '|' || c == '&'

def typeWords : List Text :=
  ["extends", "implements", "as", "typeof", "keyof"].map String.toList

/-- The first letters of the words before a type. -/
def typeLetter (c : Char) : Bool := c == 'e' || c == 'i' || c == 'a' || c == 't' || c == 'k'

/-- Methods of routers and middleware stacks. -/
def routeMethods : List Text :=
  ["use", "get", "post", "put", "delete", "patch"].map String.toList

/-- A character that is no parenthesis, or a pair of parentheses with none inside. -/
def argumentPiece : Pattern Unit :=
  let plain (c : Char) : Bool := c != '(' && c != ')'
  either (one plain) do
    char '('
    run plain
    char ')'

/-- The shape of a use of `name`; the value is the offset of the name. -/
def pattern (name : Text) : Usage → Pattern Nat
  | call => do
      let offset ← standalone name
      blankRun
      char '('
      return offset
  | member => do
      let offset ← standalone name
      accessor
      return offset
  | assignmentTarget => do
      let offset ← standalone name
      blankRun
      char '='
      notBefore fun c => c == '=' || c == '>'
      return offset
  | assignmentSource => headed (· == '=') do
      notAfter fun c => c == '=' || c == '!' || c == '<' || c == '>'
      char '='
      blanks
      standalone name
  | destructuring => do
      one fun c => c == '}' || c == ']'
      blankRun
      char '='
      blanks
      standalone name
  | typePosition => do
      either (one typeMark) (headed typeLetter (anyOf (typeWords.map wordChars)))
      blanks
      standalone name
  | returned => do
      keyword "return"
      blanks1
      standalone name
  | awaited => do
      keyword "await"
      blanks1
      standalone name
  | routeArgument => do
      char '.'
      anyOf (routeMethods.map chars)
      blankRun
      char '('
      fewTimes argumentPiece
      standalone name
  | reexported => do
      keyword "export"
      either
        (do blankRun1; literal "default"; blanks1)
        (do blankRun; char '{'; manyUntil (· != '}') fun _ rest => name.isPrefixOf rest)
      standalone name

/-- The offsets of the uses of one shape, from left to right. -/
def positions (usage : Usage) (name text : Text) : List Nat :=
  ((usage.pattern name).all text).map Match.value

end Usage

/-- The offsets of all uses of `name`, each once. -/
def usePositions (name text : Text) : List Nat :=
  (Usage.all.flatMap fun usage => usage.positions name text).eraseDups

/-- How many imports of a text name `name` in their clause. -/
def clauseMentions (name text : Text) : Nat :=
  (clauseImport.all text).countP fun found =>
    (standalone name).occurs (text.slice found.value.clause)

/-- Whether the uses of `name` after an offset outnumber the later imports that name it. -/
def isNameUsed (text name : Text) (after : Nat) : Bool :=
  let tail := text.drop after
  clauseMentions name tail < (usePositions name tail).length

/-- A member of `name`, where no identifier character or dot precedes it. -/
def memberAccess (name : Text) : Pattern Unit := do
  notAfter fun c => Text.isIdentifier c || c == '.'
  chars name
  Usage.accessor

/-- Whether a member of the namespace `name` is taken outside the import statements. -/
def isNamespaceUsed (text name : Text) : Option Bool :=
  (text.blank? (importSpans text)).map (memberAccess name).occurs

/-- The whole word `require` or `import`. -/
def moduleWord : Pattern Unit := do
  either (keyword "require") (keyword "import")
  boundary

/-- Whether the words `require` and `import` occur outside a span. -/
def isModuleWordUsed (text : Text) (span : Span) : Option Bool :=
  (text.blank? [span]).map moduleWord.occurs

/-- Why a binding cannot be judged. -/
inductive Fault
  | spanOutside
  | unrecognizedKind (label : String)
deriving DecidableEq, Repr

def Fault.message : Fault → String
  | .spanOutside => "a span reaches past the end of its text"
  | .unrecognizedKind label => "Unknown binding kind: " ++ label

/-- Whether a text uses a binding of the mention at `span`. -/
def isBindingUsed (text : Text) (span : Span) (binding : Binding) : Except Fault Bool :=
  let name := binding.localName.toList
  let inside : Option Bool → Except Fault Bool
    | some used => .ok used
    | none => .error .spanOutside
  match binding.kind with
  | .wholeModule => inside (isNamespaceUsed text name)
  | .defaultExport | .named => .ok (isNameUsed text name span.stop)
  | .requireCall | .importCall => inside (isModuleWordUsed text span)
  | .unrecognized label => .error (.unrecognizedKind label)

end ImportAudit.Script
