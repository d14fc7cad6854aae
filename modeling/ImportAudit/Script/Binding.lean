import ImportAudit.Script.Statement

/-! The names that an import clause binds. A clause may hold a default name, a namespace name and a
list of named imports; its bindings are reported in that order. -/
namespace ImportAudit.Script
open Pattern

/-- How a name comes to stand for another module. A call of `require` or `import` binds no name of
its own and counts as one binding of the module's default. -/
inductive BindingKind
  | wholeModule
  | defaultExport
  | named
  | requireCall
  | importCall
  | unrecognized (label : String)
deriving DecidableEq, Repr, Inhabited

def BindingKind.label : BindingKind → String
  | .wholeModule => "namespace"
  | .defaultExport => "default"
  | .named => "named"
  | .requireCall => "require"
  | .importCall => "dynamic"
  | .unrecognized label => label

/-- A name bound in a script. `importName` is the name in the other module, `line` the line of the
name, or zero when it is not known. Names read from a text have positive lines. -/
structure Binding where
  kind : BindingKind
  localName : String
  importName : String
  line : Int
deriving DecidableEq, Repr, Inhabited

def Binding.isRenamed (binding : Binding) : Bool := binding.localName != binding.importName

def identifier : Pattern Span := spanOf (many1 Text.isIdentifier)

/-- A default name: the first name of a clause, before a comma or the end. -/
def defaultName : Pattern Span := do
  blankRun
  let found ← identifier
  blankRun
  either (char ',') atEnd
  return found

/-- `* as name`. -/
def namespaceName : Pattern Span := do
  char '*'
  blankRun
  literal "as"
  blankRun1
  identifier

/-- One whole item of a named list: `name` or `name as alias`, where `type` may come first. -/
def namedItem : Pattern (Span × Option Span) := do
  blankRun
  typeModifier
  let found ← identifier
  let renamed ← maybe? do
    blankRun1
    literal "as"
    blankRun1
    identifier
  blankRun
  atEnd
  return (found, renamed)

/-- A stretch between two commas that holds at least one character. -/
def listItem : Pattern Unit := many1 (· != ',')

def wordAt (text : Text) (span : Span) : String := String.ofList (text.slice span)

/-- A binding whose two names are the same, at an offset of the clause. -/
def sameNameBinding (kind : BindingKind) (line : Nat → Int) (clause : Text) (span : Span) :
    Binding :=
  ⟨kind, wordAt clause span, wordAt clause span, line span.start⟩

def defaultBinding (line : Nat → Int) (clause : Text) : List Binding :=
  match defaultName.matchStart? clause with
  | none => []
  | some found =>
      if wordAt clause found.value = "type" then []
      else [sameNameBinding .defaultExport line clause found.value]

def namespaceBinding (line : Nat → Int) (clause : Text) : List Binding :=
  match namespaceName.first? clause with
  | none => []
  | some found => [sameNameBinding .wholeModule line clause found.value]

/-- The binding of one item; an item of another shape binds nothing. -/
def itemBinding? (line : Nat → Int) (item : Text) : Option Binding :=
  (namedItem.matchStart? item).map fun found =>
    let bound := found.value.2.getD found.value.1
    ⟨.named, wordAt item bound, wordAt item found.value.1, line bound.start⟩

def namedBindings (line : Nat → Int) (clause : Text) : List Binding :=
  match braced.first? clause with
  | none => []
  | some list =>
      let items := clause.slice list.value
      (listItem.all items).filterMap fun item =>
        itemBinding? (fun offset => line (list.value.start + item.span.start + offset))
          (items.slice item.span)

/-- The bindings of a clause: default, namespace, named. `line` gives the line of an offset within
the clause. -/
def clauseBindings (line : Nat → Int) (clause : Text) : List Binding :=
  defaultBinding line clause ++ namespaceBinding line clause ++ namedBindings line clause

end ImportAudit.Script
