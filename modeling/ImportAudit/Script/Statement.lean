import ImportAudit.Pattern.Search

/-! The five forms in which a script names another module: an import with a clause, an import for
its effects only, a re-export, a `require` call and an `import` call. The forms are found by their
shape in the text; strings and comments are not told apart from code. -/
namespace ImportAudit.Script
open Pattern

/-- Characters between two equal quotes: at least one, neither a quote nor a line feed. -/
def quoted (quote : Char) : Pattern Span := do
  char quote
  let inner ← spanOf (run1 fun c => c != '\'' && c != '"' && c != '\n')
  char quote
  return inner

def specifier : Pattern Span := either (quoted '\'') (quoted '"')

/-- The word `type` and the blanks after it, if they are there. -/
def typeModifier : Pattern Unit := maybe do literal "type"; blanks1

def isClauseChar (c : Char) : Bool :=
  Text.isIdentifier c || Text.isBlank c || c == '*' || c == '{' || c == '}' || c == ','

/-- Where an import with a clause keeps its clause and its specifier. -/
structure ClauseImport where
  clause : Span
  specifier : Span
deriving DecidableEq, Repr

def fromWord : Text := "from".toList

/-- The word `from` comes next, perhaps after blanks. -/
def fromFollows (rest : Text) : Bool := fromWord.isPrefixOf (rest.dropWhile Text.isBlank)

/-- The characters of a clause, as few as possible. A clause may end behind its first character, and
farther on only where `from` follows and no blank stands before: no other end is ever preferred
(`clauseImport_sameFirst`). -/
def clauseText : Pattern Unit := do
  one isClauseChar
  either (pure ()) do
    one isClauseChar
    fewUntil isClauseChar fun prev rest => !prev.any Text.isBlank && fromFollows rest

/-- `import clause from 'specifier'`. -/
def clauseImport : Pattern ClauseImport := do
  keyword "import"
  blanks1
  typeModifier
  let clause ← spanOf clauseText
  blankRun
  keyword "from"
  blankRun
  let target ← specifier
  return ⟨clause, target⟩

/-- `import 'specifier'`. -/
def effectImport : Pattern Span := do
  keyword "import"
  blankRun
  specifier

/-- Everything up to the next closing brace, between braces. -/
def braced : Pattern Span := do
  char '{'
  let inner ← spanOf (run fun c => c != '}')
  char '}'
  return inner

/-- `*` or `* as name`. -/
def starExport : Pattern Unit := do
  char '*'
  maybe do
    blankRun
    literal "as"
    blankRun1
    many1 Text.isIdentifier

/-- `export * from 'specifier'`, `export * as name from 'specifier'` or
`export { names } from 'specifier'`. -/
def reexport : Pattern Span := do
  keyword "export"
  blankRun
  typeModifier
  either starExport (do let _ ← braced; return ())
  blankRun
  literal "from"
  blankRun
  specifier

/-- `word('specifier')`. -/
def moduleCall (word : String) : Pattern Span := do
  keyword word
  blankRun
  char '('
  blankRun
  let target ← specifier
  blankRun
  char ')'
  return target

def requireCall : Pattern Span := moduleCall "require"

def importCall : Pattern Span := moduleCall "import"

/-- The spans of all imports with a clause, then of all imports for effect. -/
def importSpans (text : Text) : List Span :=
  (clauseImport.all text).map Match.span ++ (effectImport.all text).map Match.span

end ImportAudit.Script
