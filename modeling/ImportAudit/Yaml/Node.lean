import ImportAudit.Yaml.Scalar.Spelling
import ImportAudit.Yaml.Token

/-! The nodes of a YAML document: scalars, sequences and mappings, each with its kind. Nodes are
numbered in the order in which they are completed, and an alias is the number of the node it stands
for. So a node has a higher number than the nodes in it, unless it is part of itself. -/
namespace ImportAudit.Yaml

inductive Content
  | scalar (text : Codes)
  | sequence (items : List Nat)
  | mapping (entries : List (Nat × Nat))
deriving DecidableEq, Repr, Inhabited

/-- The content with other numbers for its nodes. -/
def Content.renumber (change : Nat → Nat) : Content → Content
  | .scalar text => .scalar text
  | .sequence items => .sequence (items.map change)
  | .mapping entries => .mapping (entries.map fun (key, value) => (change key, change value))

structure Node where
  kind : Kind
  content : Content
deriving DecidableEq, Repr, Inhabited

/-- The nodes of a document and the number of its root. -/
structure Document where
  nodes : Array Node
  root : Nat
deriving Repr

namespace Node

/-- A tag as written; a node without one is judged by its content. -/
abbrev Tag := Option String

/-- A scalar without a tag is judged by its spelling if it is plain, and is text if not. -/
def scalar (tag : Tag) (text : Codes) (plain : Bool) : Node :=
  let kind :=
    match tag with
    | none => if plain then Scalar.kindOf text.shown else .text
    | some "!" => Scalar.kindOf text.shown
    | some tag => .ofTag tag
  ⟨kind, .scalar text⟩

/-- A collection of a kind, unless its tag says otherwise. -/
def collection (kind : Kind) (tag : Tag) (content : Content) : Node :=
  match tag with
  | none | some "!" => ⟨kind, content⟩
  | some tag => ⟨.ofTag tag, content⟩

/-- What is left out is a plain scalar without text. -/
def empty : Node := scalar none [] true

/-- Tokens still to be read and the fault after them, the nodes and anchors so far, and the handles of
tags. An anchor of a collection has no number before the collection is complete; `early` has the
aliases that are used by then, with a number that holds their place. -/
structure Reading where
  tokens : List Token
  fault : Option Fault
  nodes : Array Node
  anchors : List (String × Option Nat)
  early : List (Nat × String)
  handles : List (String × String)

abbrev Grammar := StateT Reading (Except Fault)

namespace Grammar

/-- The next token, which stays. -/
def peek : Grammar Token := do
  let state ← get
  match state.tokens with
  | token :: _ => return token
  | [] => throw (state.fault.getD .grammar)

def drop : Grammar Unit := modify fun state => { state with tokens := state.tokens.tail }

/-- Passes over the next token if it is the given one. -/
def dropIf (token : Token) : Grammar Bool := do
  if (← peek) = token then drop; return true else return false

/-- The properties of a node, in either order, each at most once. -/
def properties : Grammar (Option String × Option (Option String × String)) := do
  match ← peek with
  | .anchor name =>
      drop
      match ← peek with
      | .tag handle rest => drop; return (some name, some (handle, rest))
      | _ => return (some name, none)
  | .tag handle rest =>
      drop
      match ← peek with
      | .anchor name => drop; return (some name, some (handle, rest))
      | _ => return (none, some (handle, rest))
  | _ => return (none, none)

/-- The tag that a handle and what follows it make. -/
def expand : Option (Option String × String) → Grammar Tag
  | none => return none
  | some (none, rest) => return some rest
  | some (some handle, rest) => do
      match (← get).handles.lookup handle with
      | some expansion => return some (expansion ++ rest)
      | none => throw .grammar

/-- Adds a node and gives its number. -/
def add (node : Node) : Grammar Nat :=
  modifyGet fun state => (state.nodes.size, { state with nodes := state.nodes.push node })

def setAnchor (anchor : Option String) (number : Option Nat) : Grammar Unit :=
  match anchor with
  | none => return
  | some name =>
      modify fun state =>
        { state with anchors := (name, number) :: state.anchors.filter (·.1 ≠ name) }

/-- An anchor is set once. -/
def newAnchor (anchor : Option String) : Grammar Unit := do
  let anchors := (← get).anchors
  if anchor.any fun name => (anchors.lookup name).isSome then throw .reference
  setAnchor anchor none

/-- Adds a scalar. -/
def addScalar (anchor : Option String) (node : Node) : Grammar Nat := do
  newAnchor anchor
  let number ← add node
  setAnchor anchor (some number)
  return number

/-- Reads a collection and adds it. -/
def addCollection (anchor : Option String) (read : Grammar Node) : Grammar Nat := do
  newAnchor anchor
  let number ← add (← read)
  setAnchor anchor (some number)
  return number

/-- The node that an alias stands for. -/
def refer (name : String) : Grammar Nat := do
  match (← get).anchors.lookup name with
  | none => throw .reference
  | some (some number) => return number
  | some none => do
      let number ← add empty
      modify fun state => { state with early := (number, name) :: state.early }
      return number

/-- The number that an early alias stands for, and any other number as it is. -/
def settle (state : Reading) (number : Nat) : Nat :=
  match (state.early.lookup number).bind fun name => state.anchors.lookup name with
  | some (some whole) => whole
  | _ => number

/-- The nodes, with early aliases replaced by the numbers of their collections. -/
def completed (state : Reading) : Array Node :=
  if state.early.isEmpty then state.nodes
  else state.nodes.map fun node => { node with content := node.content.renumber (settle state) }

/-- Collections may be nested this deeply. -/
def deepest : Nat := 488

def sequenceOf (tag : Tag) (items : List Nat) : Node := collection .sequence tag (.sequence items)

def mappingOf (tag : Tag) (entries : List (Nat × Nat)) : Node :=
  collection .mapping tag (.mapping entries)

mutual

/-- A node inside so many collections. `block` admits block collections, `indentless` a sequence that
is not indented. -/
def node : Nat → Nat → Bool → Bool → Grammar Nat
  | 0, _, _, _ => throw .grammar
  | fuel + 1, depth, block, indentless => do
      if deepest < depth then throw .tooDeep
      match ← peek with
      | .reference name => drop; refer name
      | _ =>
          let (anchor, written) ← properties
          let tag ← expand written
          let next ← peek
          if indentless && next = .blockEntry then
            addCollection anchor (sequenceOf tag <$> indentlessItems fuel (depth + 1))
          else
            match next, block with
            | .scalar text plain, _ =>
                drop
                addScalar anchor (.scalar tag text plain)
            | .flowSequenceStart, _ =>
                drop
                addCollection anchor (sequenceOf tag <$> flowItems fuel (depth + 1) true)
            | .flowMappingStart, _ =>
                drop
                addCollection anchor (mappingOf tag <$> flowEntries fuel (depth + 1) true)
            | .blockSequenceStart, true =>
                drop
                addCollection anchor (sequenceOf tag <$> blockItems fuel (depth + 1))
            | .blockMappingStart, true =>
                drop
                addCollection anchor (mappingOf tag <$> blockEntries fuel (depth + 1))
            | _, _ =>
                if anchor.isSome || written.isSome then addScalar anchor (.scalar tag [] tag.isNone)
                else throw .grammar

/-- A node, or an empty one before one of the closing tokens. -/
def nodeUnless : Nat → Nat → Bool → Bool → List Token → Grammar Nat
  | 0, _, _, _, _ => throw .grammar
  | fuel + 1, depth, block, indentless, closing => do
      if closing.contains (← peek) then add .empty else node fuel depth block indentless

def blockItems : Nat → Nat → Grammar (List Nat)
  | 0, _ => throw .grammar
  | fuel + 1, depth => do
      if ← dropIf .blockEntry then
        let item ← nodeUnless fuel depth true false [.blockEntry, .blockEnd]
        return item :: (← blockItems fuel depth)
      else if ← dropIf .blockEnd then return []
      else throw .grammar

def indentlessItems : Nat → Nat → Grammar (List Nat)
  | 0, _ => throw .grammar
  | fuel + 1, depth => do
      if ← dropIf .blockEntry then
        let item ← nodeUnless fuel depth true false [.blockEntry, .key, .value, .blockEnd]
        return item :: (← indentlessItems fuel depth)
      else return []

def blockEntries : Nat → Nat → Grammar (List (Nat × Nat))
  | 0, _ => throw .grammar
  | fuel + 1, depth => do
      let closing := [Token.key, .value, .blockEnd]
      if ← dropIf .key then
        let key ← nodeUnless fuel depth true true closing
        let value ← if ← dropIf .value then nodeUnless fuel depth true true closing else add .empty
        return (key, value) :: (← blockEntries fuel depth)
      else if ← dropIf .blockEnd then return []
      else throw .grammar

/-- The items of a flow sequence; an item that is a key makes a mapping of one entry. -/
def flowItems : Nat → Nat → Bool → Grammar (List Nat)
  | 0, _, _ => throw .grammar
  | fuel + 1, depth, first => do
      if ← dropIf .flowSequenceEnd then return []
      if !first then
        if !(← dropIf .flowEntry) then throw .grammar
      if ← dropIf .key then
        let inner := depth + 1
        let key ← nodeUnless fuel inner false false [.value, .flowEntry, .flowSequenceEnd]
        let value ←
          if ← dropIf .value then nodeUnless fuel inner false false [.flowEntry, .flowSequenceEnd]
          else add .empty
        let entry ← add (mappingOf none [(key, value)])
        return entry :: (← flowItems fuel depth false)
      else if ← dropIf .flowSequenceEnd then return []
      else
        let item ← node fuel depth false false
        return item :: (← flowItems fuel depth false)

/-- The entries of a flow mapping; an entry without a key sign has no value. -/
def flowEntries : Nat → Nat → Bool → Grammar (List (Nat × Nat))
  | 0, _, _ => throw .grammar
  | fuel + 1, depth, first => do
      if ← dropIf .flowMappingEnd then return []
      if !first then
        if !(← dropIf .flowEntry) then throw .grammar
      if ← dropIf .key then
        let key ← nodeUnless fuel depth false false [.value, .flowEntry, .flowMappingEnd]
        let value ←
          if ← dropIf .value then nodeUnless fuel depth false false [.flowEntry, .flowMappingEnd]
          else add .empty
        return (key, value) :: (← flowEntries fuel depth false)
      else if ← dropIf .flowMappingEnd then return []
      else
        let key ← node fuel depth false false
        let value ← add .empty
        return (key, value) :: (← flowEntries fuel depth false)

end

def defaultHandles : List (String × String) := [("!", "!"), ("!!", "tag:yaml.org,2002:")]

/-- The directives before a document: one version, of the first kind, and handles of tags. -/
def directives : Nat → Bool → List (String × String) → Grammar (List (String × String))
  | 0, _, _ => throw .grammar
  | fuel + 1, versioned, handles => do
      match ← peek with
      | .version major _ =>
          if versioned || major != 1 then throw .grammar
          drop
          directives fuel true handles
      | .handle name expansion =>
          if (handles.lookup name).isSome then throw .grammar
          drop
          directives fuel versioned ((name, expansion) :: handles)
      | .otherDirective => drop; directives fuel versioned handles
      | _ => return handles

/-- The start of a document that is marked as such. -/
def explicitStart (fuel : Nat) : Grammar Unit := do
  let handles ← directives fuel false []
  if !(← dropIf .documentStart) then throw .grammar
  modify fun state => { state with handles := handles ++ defaultHandles }

def dropDocumentEnds : Nat → Grammar Unit
  | 0 => throw .grammar
  | fuel + 1 => do if ← dropIf .documentEnd then dropDocumentEnds fuel

def isDirective : Token → Bool
  | .version _ _ | .handle _ _ | .otherDirective => true
  | _ => false

/-- The content of a document after its start; nothing before the next start or end is empty. -/
def content (fuel : Nat) : Grammar Nat := do
  let next ← peek
  if isDirective next || [Token.documentStart, .documentEnd, .streamEnd].contains next then
    add .empty
  else node fuel 0 true false

/-- The only document of a stream, if it has one. -/
def document (fuel : Nat) : Grammar (Option Nat) := do
  drop
  let next ← peek
  if next = .streamEnd then return none
  let root ←
    if isDirective next || next = .documentStart then
      explicitStart fuel
      content fuel
    else node fuel 0 true false
  dropDocumentEnds fuel
  if (← peek) = .streamEnd then return some root
  explicitStart fuel
  throw .reference

end Grammar

end Node

/-- The only document in some tokens, if there is one. -/
def Document.ofTokens (tokens : Tokens) : Except Fault (Option Document) := do
  let fuel := 3 * tokens.list.length + 8
  let state : Node.Reading := ⟨tokens.list, tokens.fault, #[], [], [], Node.Grammar.defaultHandles⟩
  let (root, state) ← (Node.Grammar.document fuel).run state
  return root.map fun root => ⟨Node.Grammar.completed state, root⟩

end ImportAudit.Yaml
