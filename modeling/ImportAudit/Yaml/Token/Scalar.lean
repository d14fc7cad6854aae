import ImportAudit.Yaml.Place

/-! The text of scalars: plain, quoted and block scalars, with their rules for folding lines. -/
namespace ImportAudit.Yaml.Token.Scalar

def isFlowMark (c : Char) : Bool := c == ',' || c == '[' || c == ']' || c == '{' || c == '}'

/-- What a line break and the blank lines after it stand for: a single line feed is a space. -/
def foldBreaks (first : Char) (others : Text) : Text :=
  if first != '\n' then first :: others else if others.isEmpty then [' '] else others

/-! ### Plain scalars -/

/-- How many characters belong to a plain scalar without a blank, on top of those counted. -/
def plainLength (flow : Bool) (counted : Nat) : Text → Nat
  | [] => counted
  | c :: rest =>
      let next := rest.headD '\x00'
      if endsWord c || (c == ':' && (endsWord next || (flow && isFlowMark next))) ||
          (flow && (isFlowMark c || c == '?')) then counted
      else plainLength flow (counted + 1) rest

/-- The line breaks from here on, the last first, blanks between them dropped; a document marker ends
them and is reported. -/
def plainBreaks : Nat → Place → Text → Text × Place × Bool
  | 0, place, breaks => (breaks, place, false)
  | fuel + 1, place, breaks =>
      if place.current == ' ' then plainBreaks fuel place.next breaks
      else
        match place.break? with
        | none => (breaks, place, false)
        | some (c, after) =>
            let after := after.seeMarker
            if after.atMarker then (breaks, after, true)
            else plainBreaks fuel after (c :: breaks)

/-- What stands between two words of a plain scalar, whether a line ended there, and the place
after it. Nothing stands there if the scalar cannot go on. -/
structure Gap where
  text : Text
  lineEnded : Bool
  after : Place

def plainGap (place : Place) : Gap :=
  let spaces := place.run (· == ' ')
  let place := place.advance spaces.length
  match place.break? with
  | none => ⟨spaces, false, place⟩
  | some (first, after) =>
      let after := after.seeMarker
      if after.atMarker then ⟨[], true, after⟩
      else
        match plainBreaks after.fuel after [] with
        | (_, after, true) => ⟨[], true, after⟩
        | (others, after, false) => ⟨foldBreaks first others.reverse, true, after⟩

/-- A plain scalar. `lineEnded` says that it was left at the start of a line. -/
structure Plain where
  text : Text
  lineEnded : Bool
  after : Place

/-- A plain scalar from its words: `read` has been read, the last character first, and `gap` stands
before the next word. -/
def plainFrom (flow : Bool) (indent : Int) : Nat → Text → Gap → Plain
  | 0, read, gap => ⟨read.reverse, gap.lineEnded, gap.after⟩
  | fuel + 1, read, gap =>
      let place := gap.after
      let length := plainLength flow 0 place.rest
      let stop := place.advance length
      let stop := if stop.current == ':' then stop.see 2 else stop
      if place.current == '#' || length == 0 then ⟨read.reverse, gap.lineEnded, stop⟩
      else
        let read := (gap.text ++ place.rest.take length).reverse ++ read
        let gap := plainGap stop
        if gap.text.isEmpty || gap.after.current == '#' ||
            (!flow && decide ((gap.after.column : Int) < indent)) then
          ⟨read.reverse, gap.lineEnded, gap.after⟩
        else plainFrom flow indent fuel read gap

/-- A plain scalar; outside flow collections its further lines must be indented. -/
def plain (flow : Bool) (indent : Int) (place : Place) : Plain :=
  plainFrom flow indent place.fuel [] ⟨[], false, place⟩

/-! ### Quoted scalars -/

/-- The blank lines after a line break in a quoted scalar, the last first. -/
def quotedBreaks : Nat → Place → Text → Lexed (Text × Place)
  | 0, place, breaks => .ok (breaks, place)
  | fuel + 1, place, breaks =>
      let place := place.seeMarker
      if place.atMarker then place.fail
      else
        let place := place.skip fun c => c == ' ' || c == '\t'
        match place.break? with
        | none => .ok (breaks, place)
        | some (c, after) => quotedBreaks fuel after (c :: breaks)

def simpleEscape? : Char → Option Char
  | '0' => some '\x00'
  | 'a' => some '\x07'
  | 'b' => some '\x08'
  | 't' => some '\t'
  | '\t' => some '\t'
  | 'n' => some '\n'
  | 'v' => some '\x0b'
  | 'f' => some '\x0c'
  | 'r' => some '\r'
  | 'e' => some '\x1b'
  | ' ' => some ' '
  | '"' => some '"'
  | '\\' => some '\\'
  | '/' => some '/'
  | 'N' => some '\x85'
  | '_' => some '\xa0'
  | 'L' => some '\u2028'
  | 'P' => some '\u2029'
  | _ => none

def hexWidth? : Char → Option Nat
  | 'x' => some 2
  | 'u' => some 4
  | 'U' => some 8
  | _ => none

def hexDigit? (c : Char) : Option Nat :=
  if '0' ≤ c ∧ c ≤ '9' then some (c.toNat - 48)
  else if 'a' ≤ c ∧ c ≤ 'f' then some (c.toNat - 87)
  else if 'A' ≤ c ∧ c ≤ 'F' then some (c.toNat - 55)
  else none

/-- The number that hexadecimal digits write. -/
def hexValue? (digits : Text) : Option Nat :=
  digits.foldlM (fun value c => (hexDigit? c).map (value * 16 + ·)) 0

/-- The code point of a number, if there is one. -/
def codePointOf (code : Nat) : Except Fault CodePoint :=
  if code.isValidChar then .ok (.char (Char.ofNat code))
  else if lone : IsSurrogate code then .ok (.surrogate code lone)
  else if code < 0x110000 then .error .byteEscape
  else if code < 0x80000000 then .error .badCodePoint
  else .error .codePointOverflow

/-- The code point that `width` hexadecimal digits write. -/
def hexEscape (width : Nat) (place : Place) : Lexed (Codes × Place) :=
  let digits := (place.rest.take width).takeWhile fun c => (hexDigit? c).isSome
  if digits.length < width then (place.see (digits.length + 1)).fail
  else
    match codePointOf ((hexValue? digits).getD 0) with
    | .ok code => .ok ([code], place.advance width)
    | .error fault => (place.see width).failWith fault

/-- What an escape stands for, the last code point first; `place` is after the backslash. -/
def escape (place : Place) : Lexed (Codes × Place) :=
  match simpleEscape? place.current, hexWidth? place.current, place.break? with
  | some c, _, _ => .ok ([.char c], place.next)
  | none, some width, _ => hexEscape width place.next
  | none, none, some (_, after) => do
      let (breaks, after) ← quotedBreaks after.fuel after []
      return (.ofText breaks, after)
  | none, none, none => place.fail

/-- The blanks and line breaks inside a quoted scalar, the last first. -/
def quotedGap (place : Place) : Lexed (Text × Place) :=
  let blanks := place.run fun c => c == ' ' || c == '\t'
  let place := place.advance blanks.length
  if place.current == '\x00' then place.fail
  else
    match place.break? with
    | none => .ok (blanks.reverse, place)
    | some (first, after) => do
        let (others, after) ← quotedBreaks after.fuel after []
        return ((foldBreaks first others.reverse).reverse, after)

/-- A quoted scalar up to and past its closing quote; `read` has been read, the last code point
first. -/
def quotedFrom (quote : Char) : Nat → Codes → Place → Lexed (Codes × Place)
  | 0, _, place => place.fail
  | fuel + 1, read, place =>
      let c := place.current
      if c == quote then
        if quote == '\'' && place.look 1 == quote then
          quotedFrom quote fuel (.char quote :: read) (place.advance 2)
        else .ok (read.reverse, place.next)
      else if quote == '"' && c == '\\' then do
        let (more, after) ← escape place.next
        quotedFrom quote fuel (more ++ read) after
      else if endsWord c then do
        let (more, after) ← quotedGap place
        quotedFrom quote fuel (.ofText more ++ read) after
      else quotedFrom quote fuel (.char c :: read) place.next

/-- The quoted scalar that starts here. -/
def quoted (place : Place) : Lexed (Codes × Place) :=
  quotedFrom place.current place.fuel [] place.next

/-! ### Block scalars -/

/-- What becomes of the line breaks at the end of a block scalar. -/
inductive Chomping
  | strip
  | clip
  | keep
deriving DecidableEq

def chomping? : Char → Option Chomping
  | '-' => some .strip
  | '+' => some .keep
  | _ => none

def digit? (c : Char) : Option Nat := if c.isDigit then some (c.toNat - 48) else none

/-- The indicators after the sign of a block scalar: chomping and indentation, in either order. -/
def blockHeader (place : Place) : Lexed (Chomping × Option Nat × Place) := do
  let (chomping, place) :=
    match chomping? place.current with
    | some chomping => (some chomping, place.next)
    | none => (none, place)
  let (indent, place) ←
    match digit? place.current with
    | some 0 => place.fail
    | some indent => pure (some indent, place.next)
    | none => pure (none, place)
  let (chomping, place) :=
    match chomping, indent, chomping? place.current with
    | none, some _, some chomping => (some chomping, place.next)
    | _, _, _ => (chomping, place)
  if !(endsLine place.current || place.current == ' ') then place.fail
  let place := place.skip (· == ' ')
  let place := if place.current == '#' then place.skip (!isBreak ·) else place
  if !endsLine place.current then place.fail
  return (chomping.getD .clip, indent, place.next)

/-- The leading blank lines of a block scalar, the last first, and the widest indentation among them
and the line after. -/
def blockLead : Nat → Place → Text → Nat → Text × Nat × Place
  | 0, place, breaks, widest => (breaks, widest, place)
  | fuel + 1, place, breaks, widest =>
      if place.current == ' ' then
        let place := place.next
        blockLead fuel place breaks (max widest place.column)
      else
        match place.break? with
        | some (c, after) => blockLead fuel after (c :: breaks) widest
        | none => (breaks, widest, place)

/-- Spaces up to a column. -/
def indentTo (column : Nat) (place : Place) : Place :=
  place.advance (min (column - place.column) (place.run (· == ' ')).length)

/-- The blank lines before the next line of a block scalar, the last first, and the start of that
line. -/
def blockBreaks (indent : Nat) : Nat → Place → Text → Text × Place
  | 0, place, breaks => (breaks, place)
  | fuel + 1, place, breaks =>
      let place := indentTo indent place
      match place.break? with
      | some (c, after) => blockBreaks indent fuel after (c :: breaks)
      | none => (breaks, place)

def isBlankMark (c : Char) : Bool := c == ' ' || c == '\t'

/-- A block scalar as far as it has been read: its text, the line break at the end of the last line,
and the breaks of the blank lines after it, each with its last character first. -/
structure Block where
  read : Text
  lastBreak : Text
  breaks : Text
  after : Place

/-- The lines of a block scalar from the line here on. -/
def blockLines (folded : Bool) (indent : Nat) : Nat → Block → Block
  | 0, block => block
  | fuel + 1, block =>
      let place := block.after
      if place.column == indent && place.current != '\x00' then
        let line := place.run (!isBreak ·)
        let read := line.reverse ++ (block.breaks ++ block.read)
        let afterLine := place.advance line.length
        let (lineBreak, afterBreak) :=
          match afterLine.break? with
          | some (c, after) => ([c], after)
          | none => ([], afterLine)
        let (breaks, after) := blockBreaks indent afterBreak.fuel afterBreak []
        if after.column == indent && after.current != '\x00' then
          let joined :=
            if folded && lineBreak == ['\n'] && !isBlankMark place.current &&
                !isBlankMark after.current then
              if breaks.isEmpty then [' '] else []
            else lineBreak
          blockLines folded indent fuel ⟨joined ++ read, lineBreak, breaks, after⟩
        else ⟨read, lineBreak, breaks, after⟩
      else block

/-- The block scalar whose sign stands here; `indent` is that of the collection around it. -/
def block (folded : Bool) (indent : Int) (place : Place) : Lexed (Text × Place) := do
  let (chomping, width, place) ← blockHeader place.next
  let least := max 1 (indent + 1).toNat
  let (breaks, column, place) :=
    match width with
    | none =>
        let (breaks, widest, place) := blockLead place.fuel place [] 0
        (breaks, max least widest, place)
    | some width =>
        let column := least + width - 1
        let (breaks, place) := blockBreaks column place.fuel place []
        (breaks, column, place)
  let block := blockLines folded column place.fuel ⟨[], [], breaks, place⟩
  let reversed :=
    match chomping with
    | .strip => block.read
    | .clip => block.lastBreak ++ block.read
    | .keep => block.breaks ++ (block.lastBreak ++ block.read)
  return (reversed.reverse, block.after)

end ImportAudit.Yaml.Token.Scalar
