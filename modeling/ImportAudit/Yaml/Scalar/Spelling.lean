import ImportAudit.Pattern.Search
import ImportAudit.Yaml.Kind

/-! How plain scalars are told apart by their spelling: truth values, numbers, nothing, dates and
times; any other spelling is text. -/
namespace ImportAudit.Yaml

namespace Scalar
open Pattern

def isSign (c : Char) : Bool := c == '-' || c == '+'

def isDigitOrBar (c : Char) : Bool := c.isDigit || c == '_'

def sign : Pattern Unit := maybe (one isSign)

def oneOf (words : List String) : Pattern Unit := anyOf (words.map literal)

/-- A line feed at the very end is no part of a spelling, unless it is all there is. -/
def withoutFinalFeed (text : Text) : Text :=
  if text.getLast? = some '\n' ∧ 1 < text.length then text.dropLast else text

/-- The text is spelled by the pattern from start to end. -/
def spells (p : Pattern Unit) (text : Text) : Bool :=
  (matchStart? (do p; atEnd) text).isSome

/-- The words for truth values, in small letters. -/
def truths : List (String × Bool) :=
  [("yes", true), ("no", false), ("true", true), ("false", false), ("on", true), ("off", false)]

/-- A word in small letters, with a capital at the start, and in capitals. -/
def cased (word : String) : List String := [word, word.capitalize, word.toUpper]

def boolWords : List String := truths.flatMap fun (word, _) => cased word

/-- A number from 0 to 59 after a colon. -/
def sexagesimalPlace : Pattern Unit := do
  char ':'
  maybe (one fun c => '0' ≤ c && c ≤ '5')
  one Char.isDigit

def sexagesimalPlaces : Pattern Unit := do
  sexagesimalPlace
  fewTimes sexagesimalPlace

def exponent : Pattern Unit := maybe do
  one fun c => c == 'e' || c == 'E'
  one isSign
  many1 Char.isDigit

def floatSpelling : Pattern Unit := anyOf [
  do sign; one Char.isDigit; many isDigitOrBar; char '.'; many isDigitOrBar; exponent,
  do char '.'; one Char.isDigit; many isDigitOrBar; exponent,
  do sign; one Char.isDigit; many isDigitOrBar; sexagesimalPlaces; char '.'; many isDigitOrBar,
  do sign; char '.'; oneOf ["inf", "Inf", "INF"],
  do char '.'; oneOf ["nan", "NaN", "NAN"]]

def isHexOrBar (c : Char) : Bool :=
  isDigitOrBar c || ('a' ≤ c && c ≤ 'f') || ('A' ≤ c && c ≤ 'F')

def nonzeroStart : Pattern Unit := do
  one fun c => '1' ≤ c && c ≤ '9'
  many isDigitOrBar

def intSpelling : Pattern Unit := anyOf [
  do sign; literal "0b"; many1 fun c => c == '0' || c == '1' || c == '_',
  do sign; char '0'; many1 fun c => ('0' ≤ c && c ≤ '7') || c == '_',
  do sign; either (char '0') nonzeroStart,
  do sign; literal "0x"; many1 isHexOrBar,
  do sign; nonzeroStart; sexagesimalPlaces]

def digits (count : Nat) : Pattern Unit :=
  match count with
  | 0 => pure ()
  | count + 1 => do one Char.isDigit; digits count

def digitsUpTo2 : Pattern Unit := do one Char.isDigit; maybe (one Char.isDigit)

def isBlankMark (c : Char) : Bool := c == ' ' || c == '\t'

/-- The written parts of a time: clock, fraction of a second and zone. -/
structure Written where
  year : Span
  month : Span
  day : Span
  clock : Option (Span × Span × Span × Option Span × Option (Option (Span × Span × Option Span)))

def shortDate : Pattern Written := do
  let year ← spanOf (digits 4)
  char '-'
  let month ← spanOf (digits 2)
  char '-'
  let day ← spanOf (digits 2)
  return ⟨year, month, day, none⟩

/-- `Z`, or a sign with hours and perhaps minutes. -/
def zone : Pattern (Option (Span × Span × Option Span)) := do
  many isBlankMark
  either (do char 'Z'; return none) do
    let sign ← spanOf (one isSign)
    let hours ← spanOf digitsUpTo2
    let minutes ← maybe? do char ':'; spanOf (digits 2)
    return some (sign, hours, minutes)

/-- A date with months and days of one or two digits. -/
def looseDate : Pattern Written := do
  let year ← spanOf (digits 4)
  char '-'
  let month ← spanOf digitsUpTo2
  char '-'
  let day ← spanOf digitsUpTo2
  return ⟨year, month, day, none⟩

def longDate : Pattern Written := do
  let year ← spanOf (digits 4)
  char '-'
  let month ← spanOf digitsUpTo2
  char '-'
  let day ← spanOf digitsUpTo2
  either (one fun c => c == 'T' || c == 't') (many1 isBlankMark)
  let hour ← spanOf digitsUpTo2
  char ':'
  let minute ← spanOf (digits 2)
  char ':'
  let second ← spanOf (digits 2)
  let fraction ← maybe? do char '.'; spanOf (many Char.isDigit)
  let zone ← maybe? zone
  return ⟨year, month, day, some (hour, minute, second, fraction, zone)⟩

/-- A date alone, or a date with a time of day. -/
def momentFrom (date : Pattern Written) (text : Text) : Option Written :=
  (matchStart? (do
    let written ← either date longDate
    atEnd
    return written) (withoutFinalFeed text)).map Match.value

/-- The signs of tags, anchors and aliases, which have no value on their own. -/
def signs : List String := ["!", "&", "*"]

/-- The kind of a plain scalar. -/
def kindOf (text : Text) : Kind :=
  let spelling := withoutFinalFeed text
  let word := String.ofList spelling
  if boolWords.contains word then .bool
  else if spells floatSpelling spelling then .float
  else if spells intSpelling spelling then .int
  else if word = "<<" then .merge
  else if ["", "~", "null", "Null", "NULL"].contains word then .null
  else if (momentFrom shortDate text).isSome then .moment
  else if word = "=" then .default
  else if signs.contains word then .other
  else .text

end Scalar
end ImportAudit.Yaml
