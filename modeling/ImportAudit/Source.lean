import ImportAudit.Disk
import ImportAudit.Resolution
import ImportAudit.Script.Export
import ImportAudit.Script.Mention
import ImportAudit.Text.Basic

/-! Source files as the audit sees them: their text, what they export, and their links to other
files of the tree. -/
namespace ImportAudit

/-- A mention of a file within the tree. -/
structure Link where
  target : Path
  specifier : String
  bindings : List Script.Binding
  line : Int
  span : Span
deriving DecidableEq, Repr, Inhabited

/-- A source file. `exports` is in ascending order, `links` in the order of the text. -/
structure Source where
  path : Path
  text : Text
  exports : List String
  links : List Link
deriving DecidableEq, Repr, Inhabited

namespace Source

/-- The text of a file: bytes that are not UTF-8 are replaced, and every line ends in a line feed. -/
def textOf (bytes : Text.Utf8.Bytes) : Text :=
  Text.unifyLineEndings (Text.Utf8.decodeLossy bytes)

/-- The link of a mention whose specifier stands for a file within the root. -/
def link? (disk : Disk) (root : Path) (extensions : List String) (importer : Path) (text : Text)
    (mention : Script.Mention) : Option Link :=
  match Resolution.resolve? disk extensions importer mention.specifier with
  | none => none
  | some target =>
      if target.isWithin root then
        some ⟨target, mention.specifier, mention.bindings, text.lineOf mention.span.start,
          mention.span⟩
      else none

/-- The links of a text to files within the root; all other mentions are external. -/
def linksOf (disk : Disk) (root : Path) (extensions : List String) (importer : Path) (text : Text) :
    List Link :=
  (Script.mentions text).filterMap (link? disk root extensions importer text)

/-- The source file that some bytes at a path make. -/
def parse (disk : Disk) (root : Path) (extensions : List String) (path : Path)
    (bytes : Text.Utf8.Bytes) : Source :=
  let text := textOf bytes
  ⟨path, text, Script.exports text, linksOf disk root extensions path text⟩

end Source
end ImportAudit
