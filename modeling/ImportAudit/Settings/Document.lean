import ImportAudit.Settings
import ImportAudit.Yaml.Value

/-! Settings written as a YAML mapping. The root is seen from the folder of the file; what the file
does not say keeps its default. -/
namespace ImportAudit.Settings

/-- Settings as a document writes them, with all code points that its texts have. -/
structure Document where
  root : { path : Path // path.IsResolved }
  entries : List Codes
  extensions : List Codes
  ignored : List Codes
deriving DecidableEq, Repr

/-- The settings to go by. No name has a surrogate, so a text that has one matches nothing and is left
out. -/
def Document.settings (document : Document) : Settings :=
  ⟨document.root.val, document.root.property, document.entries.filterMap Codes.string?,
    document.extensions.filterMap Codes.string?, document.ignored.filterMap Codes.string?⟩

/-- Why a file yields no settings. -/
inductive Fault
  | disk (fault : Disk.Fault)
  | yaml (fault : Yaml.Fault)
  | notMapping (file : Path)
  | unknownKeys (file : Path) (keys : List Yaml.Scalar)
  | unorderedKeys
  | rootNotText
  | unwritableRoot (position : Nat) (surrogates : Codes)
  | notTextList (key : String)
  | noExtensions
deriving DecidableEq, Repr

/-- Scalars between brackets, as they are written in a message. -/
def renderKeys (keys : List Yaml.Scalar) : String :=
  "[" ++ ", ".intercalate (keys.map Yaml.Scalar.render) ++ "]"

/-- Surrogates and where they stand, as a message tells them. -/
def renderSurrogates (position : Nat) : Codes → String
  | [code] =>
      "character '\\u" ++ String.ofList (Text.Quoted.hex 4 code.toNat) ++ "' in position " ++
        toString position
  | surrogates =>
      "characters in position " ++ toString position ++ "-" ++
        toString (position + surrogates.length - 1)

def Fault.message : Fault → String
  | .disk fault => fault.message
  | .yaml fault => fault.message
  | .notMapping file => file.render ++ ": expected a mapping at top level"
  | .unknownKeys file keys => file.render ++ ": unknown keys " ++ renderKeys keys
  | .unorderedKeys => "keys of unlike kinds cannot be ordered"
  | .rootNotText => "'root' must be a string"
  | .unwritableRoot position surrogates =>
      "'utf-8' codec can't encode " ++ renderSurrogates position surrogates ++
        ": surrogates not allowed"
  | .notTextList key => "'" ++ key ++ "' must be a string or a list of strings"
  | .noExtensions => "'extensions' must not be empty"

def knownKeys : List String := ["root", "entry_points", "extensions", "ignore_dirs"]

abbrev Fields := List (Yaml.Scalar × Yaml.Value)

def unknownKeys (fields : Fields) : List Yaml.Scalar :=
  (fields.map Prod.fst).filter (· ∉ knownKeys.map fun key => .text key)

/-- Whether the keys are all of one class. -/
def areOrdered : List Yaml.Scalar → Bool
  | [] => true
  | key :: keys => keys.all (·.orderClass == key.orderClass)

/-- Every key must be known; those that are not are reported in order. -/
def checkKeys (file : Path) (fields : Fields) : Except Fault Unit :=
  let unknown := unknownKeys fields
  if unknown.isEmpty then .ok ()
  else if !areOrdered unknown then .error .unorderedKeys
  else if unknown.all (·.isWritable) then
    .error (.unknownKeys file (unknown.mergeSort fun a b => !b.precedes a))
  else .error (.yaml (.tooManyDigits none))

def lookup? (key : String) (fields : Fields) : Option Yaml.Value :=
  (fields.find? (·.1 = .text key)).map Prod.snd

def text? : Yaml.Value → Option Codes
  | .scalar (.text value) => some value
  | _ => none

/-- The root as written. -/
def rootText (fields : Fields) : Except Fault Codes :=
  match lookup? "root" fields with
  | none => .ok defaultRoot
  | some value =>
      match text? value with
      | some root => .ok root
      | none => .error .rootNotText

/-- How many characters stand before the next component of a path, once each `..` has dropped what it
can. -/
def writtenBefore (above : Path) : Nat :=
  (if above.anchor = .relative then 0 else 1) +
    above.normalize.parts.foldl (fun total part => total + part.length + 1) 0

/-- What is wrong with the first of some components that no name can have, below the path `above`. -/
def badComponent? (above : Path) : List Codes → Option Fault
  | [] => none
  | part :: parts =>
      match part.string? with
      | none =>
          let before := part.takeWhile (·.char?.isSome)
          let surrogates := (part.drop before.length).takeWhile (·.char?.isNone)
          some (.unwritableRoot (writtenBefore above + before.length) surrogates)
      | some name =>
          if '\x00' ∈ name.toList then some (.disk .nulInPath)
          else badComponent? (above.join (.parse name)) parts

/-- The root that a text names, from the top of the disk and without `..`. -/
def rootAt (working file : Path) (text : Codes) : Except Fault { path : Path // path.IsResolved } :=
  let above := if text.head? = some (.char '/') then .bare .root else file.parent
  match badComponent? above (text.split '/') with
  | some fault => .error fault
  | none =>
      .ok ⟨(working.join (file.parent.join (.parse (.ofList text.shown)))).resolve,
        Path.resolve_isResolved _⟩

/-- The texts under a key, if it has a value; a single text is a list of one. -/
def textList (key : String) (fields : Fields) : Except Fault (Option (List Codes)) :=
  match lookup? key fields with
  | none => .ok none
  | some (.scalar .null) => .ok none
  | some (.scalar (.text value)) => .ok (some [value])
  | some (.sequence items) =>
      match items.mapM text? with
      | some texts => .ok (some texts)
      | none => .error (.notTextList key)
  | some _ => .error (.notTextList key)

/-- The extension with a dot in front. -/
def dotted (extension : Codes) : Codes :=
  if extension.head? = some (.char '.') then extension else .char '.' :: extension

def entriesFrom (fields : Fields) : Except Fault (List Codes) := do
  match ← textList "entry_points" fields with
  | none | some [] => return defaultEntries.map Codes.ofString
  | some texts => return texts

def extensionsFrom (fields : Fields) : Except Fault (List Codes) := do
  match ← textList "extensions" fields with
  | none => return defaultExtensions.map Codes.ofString
  | some [] => throw .noExtensions
  | some texts => return texts.map dotted

def ignoredFrom (fields : Fields) : Except Fault (List Codes) := do
  return (← textList "ignore_dirs" fields).getD (defaultIgnored.map Codes.ofString)

namespace Document

/-- The document that a mapping is. -/
def ofFields (working file : Path) (fields : Fields) : Except Fault Document := do
  checkKeys file fields
  let written ← rootText fields
  let root ← rootAt working file written
  let entries ← entriesFrom fields
  let extensions ← extensionsFrom fields
  let ignored ← ignoredFrom fields
  return ⟨root, entries, extensions, ignored⟩

/-- The document that a value is; a void value says nothing. -/
def ofValue (working file : Path) (value : Yaml.Value) : Except Fault Document :=
  if value.isVoid then ofFields working file []
  else
    match value with
    | .mapping fields => ofFields working file fields
    | _ => .error (.notMapping file)

/-- How bytes are read as a value. -/
abbrev Reader := Text.Utf8.Bytes → Except Yaml.Fault Yaml.Value

/-- The document in a file, which is seen from the working folder. -/
def load (read : Reader) (disk : Disk) (working file : Path) : Except Fault Document := do
  let bytes ← (disk.readAs (working.join file) file).mapError .disk
  let value ← (read bytes).mapError .yaml
  ofValue working file value

end Document

/-- The settings in a file of YAML. -/
def load (disk : Disk) (working file : Path) : Except Fault Settings :=
  (Document.load Yaml.Value.ofBytes disk working file).map Document.settings

end ImportAudit.Settings
