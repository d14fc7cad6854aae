import ImportAudit.Yaml.Node
import ImportAudit.Yaml.Scalar.Reading

/-! Checking that every node of a document has a value. The nodes are taken in rounds: a scalar is read
as soon as it is met, while a collection is made empty and filled in the next round. The fault that
is met first counts, so one near the root comes before one deeper down. On the way mappings take in
what they merge. -/
namespace ImportAudit.Yaml

/-- The nodes, which of them have been made, the values of the scalars among these, and the collections
to fill in the next round, the last first. -/
structure Construction where
  nodes : Array Node
  made : Array Bool
  scalars : Array (Option Scalar)
  waiting : List Nat

namespace Construction

abbrev Step := StateT Construction (Except Fault)

/-- The text of a scalar. A mapping can stand in for a scalar by its default value. -/
def textOf (nodes : Array Node) : Nat → Nat → Except Fault Codes
  | 0, _ => .error .tooDeep
  | fuel + 1, number =>
      match (nodes.getD number default).content with
      | .scalar text => .ok text
      | .mapping entries =>
          match entries.find? fun (key, _) => (nodes.getD key default).kind = .default with
          | some (_, value) => textOf nodes fuel value
          | none => .error .construction
      | .sequence _ => .error .construction

/-- The value of a node that is no collection. -/
def scalarOf (nodes : Array Node) (number : Nat) : Except Fault Scalar := do
  let node := nodes.getD number default
  match node.kind with
  | .merge | .default | .other => throw .construction
  | kind =>
      let text ← textOf nodes (nodes.size + 1) number
      match kind, node.content with
      | .moment, .mapping _ => throw .momentOfMapping
      | _, _ => Scalar.valueAs number kind text

def nodeAt (number : Nat) : Step Node := do return (← get).nodes.getD number default

/-- The entries of a mapping; other nodes have none. -/
def entriesAt (number : Nat) : Step (List (Nat × Nat)) := do
  match (← nodeAt number).content with
  | .mapping entries => return entries
  | _ => return []

def setNode (number : Nat) (node : Node) : Step Unit :=
  modify fun state => { state with nodes := state.nodes.setIfInBounds number node }

def setEntries (number : Nat) (entries : List (Nat × Nat)) : Step Unit := do
  setNode number { ← nodeAt number with content := .mapping entries }

/-- Makes a node, if it has not been made. -/
def make (number : Nat) : Step Unit := do
  let state ← get
  if state.made.getD number true then return
  let node := state.nodes.getD number default
  if node.kind.isCollection then
    modify fun state =>
      { state with
        made := state.made.setIfInBounds number true
        waiting := number :: state.waiting }
  else
    let value ← scalarOf state.nodes number
    modify fun state =>
      { state with
        made := state.made.setIfInBounds number true
        scalars := state.scalars.setIfInBounds number (some value) }

/-- The entries to merge from a mapping, or from a sequence of mappings where the earlier prevail. -/
def mergedFrom (flatten : Nat → Step Unit) (value : Nat) : Step (List (Nat × Nat)) := do
  let ofMapping (number : Nat) : Step (List (Nat × Nat)) := do
    match (← nodeAt number).content with
    | .mapping _ => flatten number; entriesAt number
    | _ => throw .construction
  match (← nodeAt value).content with
  | .sequence items => return (← items.mapM ofMapping).reverse.flatten
  | _ => ofMapping value

/-- The default sign before a colon is text. -/
def retagDefault (entry : Nat × Nat) : Step Unit := do
  let key ← nodeAt entry.1
  if key.kind = .default then setNode entry.1 { key with kind := .text }

/-- Puts what a mapping merges in front of its own entries, `merged` to begin with. An entry that merges
is taken out before it is followed up, so a mapping may merge itself; the fuel bounds how many such
entries there are. -/
def flattenFrom : Nat → List (Nat × Nat) → Nat → Step Unit
  | 0, _, _ => return
  | fuel + 1, merged, number => do
      let entries ← entriesAt number
      let kinds ← entries.mapM fun (key, _) => return (← nodeAt key).kind
      match kinds.findIdx? (· == .merge) with
      | none =>
          entries.forM retagDefault
          setEntries number (merged ++ entries)
      | some index =>
          setEntries number (entries.eraseIdx index)
          let more ← mergedFrom (flattenFrom fuel []) (entries.getD index default).2
          flattenFrom fuel (merged ++ more) number

/-- How many entries all mappings have. -/
def entryCount (nodes : Array Node) : Nat :=
  nodes.foldl (fun count node =>
    match node.content with
    | .mapping entries => count + entries.length
    | _ => count) 0

/-- The entries of a mapping with those it merges. -/
def flatten (number : Nat) : Step (List (Nat × Nat)) := do
  let kinds ← (← entriesAt number).mapM fun (key, _) => return (← nodeAt key).kind
  let nodes := (← get).nodes
  flattenFrom (if kinds.contains .merge then entryCount nodes + 1 else 1) [] number
  entriesAt number

/-- Only a scalar can be a key. -/
def makeEntry (entry : Nat × Nat) : Step Unit := do
  make entry.1
  if (← nodeAt entry.1).kind.isCollection then throw .construction
  make entry.2

/-- Makes what is in a collection. Pairs are written as a sequence of mappings with one entry each. -/
def fill (number : Nat) : Step Unit := do
  let node ← nodeAt number
  match node.kind, node.content with
  | .sequence, .sequence items => items.forM make
  | .mapping, .mapping _ | .set, .mapping _ =>
      (← flatten number).forM makeEntry
  | .pairs, .sequence items =>
      items.forM fun item => do
        match (← nodeAt item).content with
        | .mapping [(key, value)] => make key; make value
        | _ => throw .construction
  | _, _ => throw .construction

/-- Fills collections, round by round. -/
def rounds : Nat → Step Unit
  | 0 => return
  | fuel + 1 => do
      match (← get).waiting.reverse with
      | [] => return
      | round =>
          modify fun state => { state with waiting := [] }
          round.forM fill
          rounds fuel

/-- A document once every node in it has been made, mappings with what they merge. -/
def complete (document : Document) : Except Fault Construction := do
  let size := document.nodes.size
  let start : Construction :=
    ⟨document.nodes, Array.replicate size false, Array.replicate size none, []⟩
  let (_, done) ← (do make document.root; rounds (size + 1) : Step Unit).run start
  return done

end Construction
end ImportAudit.Yaml
