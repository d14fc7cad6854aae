import ImportAudit.Script.Binding

/-! The names that a script exports, found by the shape of its export statements. -/
namespace ImportAudit.Script
open Pattern

def modifier (word : String) : Pattern Unit := maybe do literal word; blankRun1

/-- What stands before a declared name: `function`, perhaps with a star, or a declaring word. -/
def declarator : Pattern Unit :=
  either
    (do literal "function"; blankRun; maybe (char '*'); blankRun)
    (do
      anyOf [
        do literal "const"; blankRun1; literal "enum",
        literal "const", literal "let", literal "var", literal "class", literal "interface",
        literal "type", literal "enum"]
      blankRun1)

/-- `export`, any modifiers in their order, and a declaration; the value is the declared name. -/
def exportedDeclaration : Pattern Span := do
  keyword "export"
  blankRun1
  modifier "default"
  modifier "declare"
  modifier "abstract"
  modifier "async"
  declarator
  identifier

/-- `export { items }`; the value is the text between the braces. -/
def exportList : Pattern Span := do
  keyword "export"
  blankRun
  typeModifier
  braced

/-- `export * as name`. -/
def exportedNamespace : Pattern Span := do
  keyword "export"
  blankRun
  namespaceName

/-- `export default`. -/
def defaultExport : Pattern Unit := do
  keyword "export"
  blankRun1
  literal "default"
  boundary

/-- The word `as` between blanks. -/
def asWord : Pattern Unit := do blankRun1; literal "as"; blankRun1

/-- The name under which an item of an export list is visible: what follows the last `as`, without
a leading `type`. -/
def itemName (item : Text) : Text :=
  let stripped := Text.strip item
  let shown := Text.strip <|
    match (asWord.all stripped).getLast? with
    | none => stripped
    | some last => stripped.drop last.span.stop
  if "type ".toList.isPrefixOf shown then Text.strip (shown.drop 5) else shown

def listNames (items : Text) : List Text :=
  ((Text.split ',' items).map itemName).filter (!·.isEmpty)

/-- Every exported name, as often as it is found. -/
def exportMentions (text : Text) : List String :=
  (exportedDeclaration.all text).map (fun found => wordAt text found.value) ++
    (exportList.all text).flatMap (fun found =>
      (listNames (text.slice found.value)).map String.ofList) ++
    (exportedNamespace.all text).map (fun found => wordAt text found.value) ++
    (if defaultExport.occurs text then ["default"] else [])

/-- A list in ascending order of code points, each text once. -/
def sortedNames (names : List String) : List String :=
  names.eraseDups.mergeSort fun a b => a ≤ b

/-- The names that a text exports, in ascending order. -/
def exports (text : Text) : List String := sortedNames (exportMentions text)

end ImportAudit.Script
