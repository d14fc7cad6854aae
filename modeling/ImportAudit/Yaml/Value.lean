import ImportAudit.Yaml.Construction
import ImportAudit.Yaml.Token.Lexer

/-! The values of YAML documents. The keys of a mapping are scalars, each once, in the order in which
they first occur; a later value for a key replaces an earlier one. -/
namespace ImportAudit.Yaml

/-- `other` stands for a pair, and for a collection inside itself. -/
inductive Value
  | scalar (value : Scalar)
  | sequence (items : List Value)
  | mapping (entries : List (Scalar × Value))
  | set (members : List Scalar)
  | other
deriving Repr, Inhabited

namespace Value

/-- Gives a key a value; a new key comes last. -/
def insert (key : Scalar) (value : Value) : List (Scalar × Value) → List (Scalar × Value)
  | [] => [(key, value)]
  | (present, old) :: entries =>
      if present.sameKey key then (present, value) :: entries
      else (present, old) :: insert key value entries

def assemble (entries : List (Scalar × Value)) : List (Scalar × Value) :=
  entries.foldl (fun entries (key, value) => insert key value entries) []

/-- Entries with their keys, each once, and the values of those. -/
def entriesOf (scalars : Array (Option Scalar)) (valueOf : Nat → Value)
    (entries : List (Nat × Nat)) : List (Scalar × Value) :=
  assemble <| entries.filterMap fun (key, value) =>
    (scalars.getD key none).map fun found => (found, valueOf value)

/-- The value of a node that has one, where the nodes with lower numbers have theirs. -/
def ofNode (construction : Construction) (values : Array Value) (number : Nat) : Value :=
  let node := construction.nodes.getD number default
  let scalars := construction.scalars
  let valueOf (number : Nat) : Value :=
    ((scalars.getD number none).map Value.scalar).getD (values.getD number .other)
  match node.kind, node.content with
  | .sequence, .sequence items => .sequence (items.map valueOf)
  | .mapping, .mapping entries => .mapping (entriesOf scalars valueOf entries)
  | .set, .mapping entries => .set ((entriesOf scalars valueOf entries).map Prod.fst)
  | .pairs, .sequence items => .sequence (items.map fun _ => .other)
  | _, _ => ((scalars.getD number none).map .scalar).getD .other

/-- The value of a document. -/
def ofDocument (document : Document) : Except Fault Value := do
  let construction ← Construction.complete document
  let values := (List.range construction.nodes.size).foldl (fun values number =>
    values.push (ofNode construction values number)) #[]
  return values.getD document.root .other

/-- The value of the only document of a stream; a stream without a document is null. -/
def parse (stream : Stream) : Except Fault Value := do
  match ← Document.ofTokens (tokenize stream) with
  | none => return .scalar .null
  | some document => ofDocument document

/-- The value of a document from its bytes. -/
def ofBytes (bytes : Text.Utf8.Bytes) : Except Fault Value := parse (.ofBytes bytes)

/-- Nothing, false, zero, and empty texts and collections. -/
def isVoid : Value → Bool
  | .scalar value => value.isVoid
  | .sequence items => items.isEmpty
  | .mapping entries => entries.isEmpty
  | .set members => members.isEmpty
  | .other => false

end Value
end ImportAudit.Yaml
