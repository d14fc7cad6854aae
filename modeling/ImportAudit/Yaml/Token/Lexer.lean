import ImportAudit.Yaml.Stream
import ImportAudit.Yaml.Token.Property
import ImportAudit.Yaml.Token.Scalar

/-! Splitting a YAML text into tokens. Indentation opens and closes block collections. A token that
may turn out to be the key of a mapping is remembered until its colon is found, and the tokens that
open the key are then put in front of it. -/
namespace ImportAudit.Yaml

/-- A token that may be a key: its number, whether it has to be one, and where it starts. -/
structure KeyCandidate where
  number : Nat
  required : Bool
  index : Nat
  line : Nat
  column : Nat
deriving Repr

/-- `tokens` has the last token first, and `count` of them. `candidates` has at most one entry for each
depth of flow collections. -/
structure Lexer where
  place : Place
  tokens : List Token
  count : Nat
  flowDepth : Int
  indent : Int
  indents : List Int
  keyAllowed : Bool
  candidates : List (Int × KeyCandidate)

namespace Lexer

def start (text : Text) : Lexer :=
  ⟨.start text, [.streamStart], 1, 0, -1, [], true, []⟩

def inFlow (lexer : Lexer) : Bool := lexer.flowDepth != 0

def emit (token : Token) (lexer : Lexer) : Lexer :=
  { lexer with tokens := token :: lexer.tokens, count := lexer.count + 1 }

/-- Puts a token in front of the one with a number. -/
def insert (number : Nat) (token : Token) (lexer : Lexer) : Lexer :=
  let (later, earlier) := lexer.tokens.splitAt (lexer.count - number)
  { lexer with tokens := later ++ token :: earlier, count := lexer.count + 1 }

def goTo (place : Place) (lexer : Lexer) : Lexer := { lexer with place }

def allowKey (allowed : Bool) (lexer : Lexer) : Lexer := { lexer with keyAllowed := allowed }

/-- The first token that may still change, if it is to become a key. -/
def settledCount (lexer : Lexer) : Nat :=
  lexer.candidates.foldl (fun count (_, candidate) => min count candidate.number) lexer.count

/-- Gives up candidates from an earlier line or more than 1024 characters back. -/
def dropStale (lexer : Lexer) : Lexed Lexer :=
  let (stale, live) := lexer.candidates.partition fun (_, candidate) =>
    candidate.line != lexer.place.line || candidate.index + 1024 < lexer.place.index
  if stale.any (·.2.required) then lexer.place.fail else .ok { lexer with candidates := live }

/-- Gives up the candidate at the present depth. -/
def dropCandidate (lexer : Lexer) : Lexed Lexer :=
  let (dropped, kept) := lexer.candidates.partition (·.1 == lexer.flowDepth)
  if dropped.any (·.2.required) then lexer.place.fail else .ok { lexer with candidates := kept }

/-- The next token may be a key. -/
def saveCandidate (lexer : Lexer) : Lexed Lexer :=
  if lexer.keyAllowed then do
    let lexer ← lexer.dropCandidate
    let place := lexer.place
    let required := !lexer.inFlow && lexer.indent == place.column
    return { lexer with
      candidates := (lexer.flowDepth, ⟨lexer.count, required, place.index, place.line,
        place.column⟩) :: lexer.candidates }
  else .ok lexer

/-- Which block collections stay open at a column, the innermost first, and how many are closed. -/
def closeBeyond (column : Int) (closed : Nat) : Int → List Int → Nat × Int × List Int
  | indent, [] => (closed, indent, [])
  | indent, outer :: indents =>
      if column < indent then closeBeyond column (closed + 1) outer indents
      else (closed, indent, outer :: indents)

/-- Closes the block collections that are indented beyond a column. -/
def unwind (column : Int) (lexer : Lexer) : Lexer :=
  if lexer.inFlow then lexer
  else
    let (closed, indent, indents) := closeBeyond column 0 lexer.indent lexer.indents
    { lexer with
      tokens := List.replicate closed .blockEnd ++ lexer.tokens
      count := lexer.count + closed
      indent, indents }

/-- Whether a block collection opens at a column, and the state with it opened. -/
def openAt (column : Nat) (lexer : Lexer) : Bool × Lexer :=
  if lexer.indent < column then
    (true, { lexer with indent := column, indents := lexer.indent :: lexer.indents })
  else (false, lexer)

/-- Opens a block collection at a column, if it is indented further. -/
def openBlock (opening : Token) (column : Nat) (lexer : Lexer) : Lexer :=
  let (opened, lexer) := lexer.openAt column
  if opened then lexer.emit opening else lexer

/-- Passes over blanks, comments and line breaks; a new line may start with a key. -/
def skipBlank : Nat → Lexer → Lexer
  | 0, lexer => lexer
  | fuel + 1, lexer =>
      let place := lexer.place.skip (· == ' ')
      let place := if place.current == '#' then place.skip (!isBreak ·) else place
      match place.break? with
      | some (_, after) =>
          skipBlank fuel ((lexer.allowKey (lexer.keyAllowed || !lexer.inFlow)).goTo after)
      | none => lexer.goTo place

/-- Passes over a leading byte order mark, too. -/
def toNextToken (lexer : Lexer) : Lexer :=
  let place := lexer.place
  let place := if place.index == 0 && place.current == '\ufeff' then place.next else place
  skipBlank place.fuel (lexer.goTo place)

def finish (lexer : Lexer) : Lexed Lexer := do
  let lexer ← (lexer.unwind (-1)).dropCandidate
  return ({ lexer with candidates := [] }.allowKey false).emit .streamEnd

def takeDirective (lexer : Lexer) : Lexed Lexer := do
  let lexer ← (lexer.unwind (-1)).dropCandidate
  let (token, after) ← Token.Property.directive lexer.place
  return (lexer.allowKey false).goTo after |>.emit token

def takeMarker (token : Token) (lexer : Lexer) : Lexed Lexer := do
  let lexer ← (lexer.unwind (-1)).dropCandidate
  return (lexer.allowKey false).goTo (lexer.place.advance 3) |>.emit token

def takeFlowStart (token : Token) (lexer : Lexer) : Lexed Lexer := do
  let lexer ← lexer.saveCandidate
  return ({ lexer with flowDepth := lexer.flowDepth + 1 }.allowKey true).goTo lexer.place.next
    |>.emit token

def takeFlowEnd (token : Token) (lexer : Lexer) : Lexed Lexer := do
  let lexer ← lexer.dropCandidate
  return ({ lexer with flowDepth := lexer.flowDepth - 1 }.allowKey false).goTo lexer.place.next
    |>.emit token

def takeFlowEntry (lexer : Lexer) : Lexed Lexer := do
  let lexer ← (lexer.allowKey true).dropCandidate
  return lexer.goTo lexer.place.next |>.emit .flowEntry

/-- Outside flow collections an entry or a key stands where a key is allowed, and may open a block
collection. -/
def openIndicated (opening : Token) (lexer : Lexer) : Lexed Lexer :=
  if lexer.inFlow then .ok lexer
  else if !lexer.keyAllowed then lexer.place.fail
  else .ok (lexer.openBlock opening lexer.place.column)

def takeBlockEntry (lexer : Lexer) : Lexed Lexer := do
  let lexer ← lexer.openIndicated .blockSequenceStart
  let lexer ← (lexer.allowKey true).dropCandidate
  return lexer.goTo lexer.place.next |>.emit .blockEntry

def takeKey (lexer : Lexer) : Lexed Lexer := do
  let lexer ← lexer.openIndicated .blockMappingStart
  let lexer ← (lexer.allowKey (!lexer.inFlow)).dropCandidate
  return lexer.goTo lexer.place.next |>.emit .key

/-- Puts the opening of a key, and of its mapping, in front of the candidate. -/
def confirmKey (candidate : KeyCandidate) (lexer : Lexer) : Lexer :=
  let kept := lexer.candidates.filter (·.1 != lexer.flowDepth)
  let keyed := { lexer with candidates := kept }.insert candidate.number .key
  if lexer.inFlow then keyed
  else
    let (opened, placed) := keyed.openAt candidate.column
    if opened then placed.insert candidate.number .blockMappingStart else placed

def takeValue (lexer : Lexer) : Lexed Lexer := do
  let lexer ←
    match lexer.candidates.find? (·.1 == lexer.flowDepth) with
    | some (_, candidate) => pure ((lexer.confirmKey candidate).allowKey false)
    | none =>
        let opened ← lexer.openIndicated .blockMappingStart
        (opened.allowKey (!lexer.inFlow)).dropCandidate
  return lexer.goTo lexer.place.next |>.emit .value

def takeNamed (token : String → Token) (lexer : Lexer) : Lexed Lexer := do
  let lexer ← lexer.saveCandidate
  let (name, after) ← Token.Property.name lexer.place
  return (lexer.allowKey false).goTo after |>.emit (token name)

def takeTag (lexer : Lexer) : Lexed Lexer := do
  let lexer ← lexer.saveCandidate
  let (token, after) ← Token.Property.tag lexer.place
  return (lexer.allowKey false).goTo after |>.emit token

def takeBlockScalar (folded : Bool) (lexer : Lexer) : Lexed Lexer := do
  let lexer ← (lexer.allowKey true).dropCandidate
  let (text, after) ← Token.Scalar.block folded lexer.indent lexer.place
  return lexer.goTo after |>.emit (.scalar (.ofText text) false)

def takeQuoted (lexer : Lexer) : Lexed Lexer := do
  let lexer ← lexer.saveCandidate
  let (text, after) ← Token.Scalar.quoted lexer.place
  return (lexer.allowKey false).goTo after |>.emit (.scalar text false)

def takePlain (lexer : Lexer) : Lexed Lexer := do
  let lexer ← lexer.saveCandidate
  let plain := Token.Scalar.plain lexer.inFlow (lexer.indent + 1) lexer.place
  return (lexer.allowKey plain.lineEnded).goTo plain.after
    |>.emit (.scalar (.ofText plain.text) true)

/-- Whether a plain scalar can start here. -/
def startsPlain (lexer : Lexer) : Bool :=
  let c := lexer.place.current
  !(endsWord c || "-?:,[]\x7b\x7d#&*!|>'\"%@`".toList.contains c) ||
    (!endsWord (lexer.place.look 1) &&
      (c == '-' || (!lexer.inFlow && (c == '?' || c == ':'))))

/-- Looks as far ahead as it takes to tell which token the character here starts. -/
def glance (lexer : Lexer) : Lexer :=
  let place := lexer.place
  let c := place.current
  let place := if place.column == 0 && (c == '-' || c == '.') then place.seeMarker else place
  let place :=
    if c == '-' || (!lexer.inFlow && (c == '?' || c == ':')) then place.see 2 else place
  lexer.goTo place

/-- Takes the next token from its first character. -/
def takeToken (lexer : Lexer) : Lexed Lexer :=
  let place := lexer.place
  let c := place.current
  let alone := endsWord (place.look 1)
  let atMarker := place.column == 0 && place.atMarker
  if c == '\x00' then lexer.finish
  else if c == '%' && place.column == 0 then lexer.takeDirective
  else if c == '-' && atMarker then lexer.takeMarker .documentStart
  else if c == '.' && atMarker then lexer.takeMarker .documentEnd
  else if c == '[' then lexer.takeFlowStart .flowSequenceStart
  else if c == '{' then lexer.takeFlowStart .flowMappingStart
  else if c == ']' then lexer.takeFlowEnd .flowSequenceEnd
  else if c == '}' then lexer.takeFlowEnd .flowMappingEnd
  else if c == ',' then lexer.takeFlowEntry
  else if c == '-' && alone then lexer.takeBlockEntry
  else if c == '?' && (lexer.inFlow || alone) then lexer.takeKey
  else if c == ':' && (lexer.inFlow || alone) then lexer.takeValue
  else if c == '*' then lexer.takeNamed .reference
  else if c == '&' then lexer.takeNamed .anchor
  else if c == '!' then lexer.takeTag
  else if c == '|' && !lexer.inFlow then lexer.takeBlockScalar false
  else if c == '>' && !lexer.inFlow then lexer.takeBlockScalar true
  else if c == '\'' || c == '"' then lexer.takeQuoted
  else if lexer.startsPlain then lexer.takePlain
  else (place.see 2).fail

/-- One token more, with the block collections it closes. -/
def step (lexer : Lexer) : Lexed Lexer := do
  let lexer ← lexer.toNextToken.dropStale
  let lexer ← (lexer.unwind lexer.place.column).glance.takeToken
  lexer.dropStale

/-- The tokens up to a fault that shows when the next one is asked for; those that were not settled by
then are hidden. -/
def stopped (fault : Fault) (lexer : Lexer) : Tokens :=
  ⟨lexer.tokens.reverse.take lexer.settledCount, some fault⟩

/-- Takes tokens to the end of the text, or to the first fault or obstacle. -/
def takeAll (obstacle : Option Obstacle) : Nat → Lexer → Tokens
  | 0, lexer => lexer.stopped .lexical
  | fuel + 1, lexer =>
      let faultAt (seen : Nat) : Option Fault := (obstacle.filter (·.isMet seen)).map Obstacle.fault
      match lexer.step with
      | .error lapse => lexer.stopped ((faultAt lapse.seen).getD lapse.fault)
      | .ok next =>
          match faultAt next.place.seen with
          | some fault => lexer.stopped fault
          | none =>
              if next.tokens.head? == some .streamEnd then ⟨next.tokens.reverse, none⟩
              else takeAll obstacle fuel next

end Lexer

/-- The tokens of a stream. -/
def tokenize (stream : Stream) : Tokens :=
  let lexer := Lexer.start stream.text
  lexer.takeAll stream.obstacle lexer.place.fuel

end ImportAudit.Yaml
