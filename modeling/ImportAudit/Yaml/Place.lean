import ImportAudit.Yaml.Fault

/-! Places in a YAML text, with the line and column that indentation is measured by, and how far the
text has been looked at on the way. The end of the text reads as the character NUL, which no readable
text holds. -/
namespace ImportAudit.Yaml

/-- A fault while a token is read, and how many characters had been looked at by then. -/
structure Lapse where
  fault : Fault
  seen : Nat
deriving DecidableEq, Repr

abbrev Lexed := Except Lapse

/-- `seen` counts the characters that have been looked at, the one here among them. `fuel` is more than
the steps that any loop over the text can take. -/
structure Place where
  rest : Text
  index : Nat
  line : Nat
  column : Nat
  seen : Nat
  fuel : Nat
deriving Repr

def isBreak (c : Char) : Bool := c == '\n' || c == '\x85' || c == '\u2028' || c == '\u2029'

/-- The end of the text, a blank or a line break. -/
def endsWord (c : Char) : Bool := c == '\x00' || c == ' ' || c == '\t' || isBreak c

/-- The end of the text or a line break. -/
def endsLine (c : Char) : Bool := c == '\x00' || isBreak c

namespace Place

def start (text : Text) : Place := ⟨text, 0, 0, 0, 1, text.length + 1⟩

/-- The character `ahead` places further on. -/
def look (place : Place) (ahead : Nat) : Char := place.rest.getD ahead '\x00'

def current (place : Place) : Char := place.look 0

/-- The place once `count` characters from here have been looked at. -/
def see (count : Nat) (place : Place) : Place :=
  { place with seen := max place.seen (place.index + count) }

def failWith {α : Type} (place : Place) (fault : Fault) : Lexed α := .error ⟨fault, place.seen⟩

/-- The character here does not fit. -/
def fail {α : Type} (place : Place) : Lexed α := place.failWith .lexical

/-- A line break starts a new line; the byte order mark takes up no column. -/
def next (place : Place) : Place :=
  match place.rest with
  | [] => place
  | c :: rest =>
      let seen := max place.seen (place.index + 2)
      if isBreak c then ⟨rest, place.index + 1, place.line + 1, 0, seen, place.fuel⟩
      else if c == '\ufeff' then ⟨rest, place.index + 1, place.line, place.column, seen, place.fuel⟩
      else ⟨rest, place.index + 1, place.line, place.column + 1, seen, place.fuel⟩

def advance : Nat → Place → Place
  | 0, place => place
  | count + 1, place => advance count place.next

/-- The characters of a class from here on. -/
def run (place : Place) (accepts : Char → Bool) : Text := place.rest.takeWhile accepts

def skip (place : Place) (accepts : Char → Bool) : Place :=
  place.advance (place.run accepts).length

/-- The line break here, as it counts in a scalar, and the place after it. -/
def break? (place : Place) : Option (Char × Place) :=
  if isBreak place.current then
    some (if place.current == '\x85' then '\n' else place.current, place.next)
  else none

/-- Three dashes or three dots come next. -/
def hasMarks (place : Place) : Bool :=
  place.rest.take 3 == "---".toList || place.rest.take 3 == "...".toList

/-- Three dashes or three dots that stand for themselves. -/
def atMarker (place : Place) : Bool := place.hasMarks && endsWord (place.look 3)

/-- The place once it has been looked at whether a marker stands here. -/
def seeMarker (place : Place) : Place := place.see (if place.hasMarks then 4 else 3)

end Place
end ImportAudit.Yaml
