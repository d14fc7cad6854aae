import ImportAudit.Text.Base64
import ImportAudit.Text.CharClass
import ImportAudit.Text.Lower
import ImportAudit.Yaml.Scalar
import ImportAudit.Yaml.Scalar.Spelling

/-! The value of a scalar from its text. Numbers may be written with the digits of any script and
between blanks, if a tag says that they are numbers. A surrogate is part of no value but a text, and
reads like the character that replaces it; faults tell it as it is. -/
namespace ImportAudit.Yaml.Scalar

def isNumberBlank (c : Char) : Bool :=
  if c.toNat < 128 then c == ' ' || (0x09 ≤ c.toNat && c.toNat ≤ 0x0D) else Text.isBlank c

def asciiDigit (c : Char) : Char := ((Text.decimalValue? c).map Nat.digitChar).getD c

/-- The text without blanks around it, and with the digits zero to nine. -/
def trimmed (text : Text) : Text :=
  (((text.dropWhile isNumberBlank).reverse.dropWhile isNumberBlank).reverse).map asciiDigit

/-- The sign of a number, and what follows it. -/
def splitSign {α : Type} (charOf : α → Char) : List α → Bool × List α
  | [] => (false, [])
  | c :: rest =>
      if charOf c = '-' then (true, rest)
      else if charOf c = '+' then (false, rest)
      else (false, c :: rest)

def digitValue? (base : Nat) (c : Char) : Option Nat :=
  let value :=
    if c.isDigit then c.toNat - 48
    else if 'a' ≤ c ∧ c ≤ 'z' then c.toNat - 87
    else if 'A' ≤ c ∧ c ≤ 'Z' then c.toNat - 55
    else base
  if value < base then some value else none

def natOf (base : Nat) (digits : Text) : Nat :=
  digits.foldl (fun value c => value * base + (digitValue? base c).getD 0) 0

/-- The letter that may stand after a zero to announce a base. -/
def baseLetter? : Nat → Option Char
  | 2 => some 'b'
  | 8 => some 'o'
  | 16 => some 'x'
  | _ => none

/-- The digits after an announcement of their base. -/
def unannounced (base : Nat) : Text → Text
  | '0' :: letter :: rest =>
      if baseLetter? base = some letter.toLower then rest else '0' :: letter :: rest
  | body => body

/-- The whole number that a text writes to a base. Only to bases that are no power of two is the
number of digits limited. -/
def readInt (base : Nat) (text : Codes) : Except Fault Int :=
  let (negative, signless) := splitSign id (trimmed text.shown)
  let body := unannounced base signless
  let digits := body.takeWhile fun c => (digitValue? base c).isSome
  if (baseLetter? base).isNone ∧ Fault.digitLimit < digits.length then
    .error (.tooManyDigits (some digits.length))
  else if digits.isEmpty ∨ digits.length < body.length then
    .error (.badInt base text)
  else .ok (signed negative (natOf base digits))

/-- The value of a whole number: binary, hexadecimal, octal, to base sixty or decimal. -/
def intValue (text : Codes) : Except Fault Int := do
  let (negative, body) := splitSign CodePoint.shown (text.filter (· != .char '_'))
  let value ←
    match body with
    | [] => throw .emptyNumber
    | [.char '0'] => pure 0
    | .char '0' :: .char 'b' :: rest => readInt 2 rest
    | .char '0' :: .char 'x' :: rest => readInt 16 rest
    | .char '0' :: _ => readInt 8 body
    | _ => do
        let places ← (Codes.split ':' body).mapM (readInt 10)
        pure (places.foldl (fun value place => value * 60 + place) 0)
  return if negative then -value else value

def negate : Binary64 → Binary64
  | .finite negative mantissa exponent => .finite (!negative) mantissa exponent
  | .infinite negative => .infinite (!negative)
  | .undefined => .undefined

/-- Whether a text is a power of ten after a decimal: nothing, or a letter, a sign and digits. -/
def isPower : Text → Bool
  | [] => true
  | letter :: rest =>
      let digits := (splitSign id rest).2
      letter == 'e' && !digits.isEmpty && digits.all Char.isDigit

/-- The number that a decimal without a sign writes. -/
def decimal? (body : Text) : Option Binary64 :=
  let whole := body.takeWhile Char.isDigit
  let point := body.drop whole.length
  let fraction := if point.head? = some '.' then (point.drop 1).takeWhile Char.isDigit else []
  let power := if point.head? = some '.' then point.drop (fraction.length + 1) else point
  if (whole ++ fraction).isEmpty || !isPower power then none
  else
    let (negative, digits) := splitSign id (power.drop 1)
    some (.ofDecimal false (natOf 10 (whole ++ fraction))
      (signed negative (natOf 10 digits) - fraction.length))

/-- The number that a text in small letters writes. -/
def readFloat (text : Codes) : Except Fault Binary64 :=
  let (negative, body) := splitSign id (trimmed text.shown)
  let value? : Option Binary64 :=
    if body = "inf".toList ∨ body = "infinity".toList then some (.infinite false)
    else if body = "nan".toList then some .undefined
    else decimal? body
  match value? with
  | some value => .ok (if negative then negate value else value)
  | none => .error (.badFloat text)

/-- The sum of places to base sixty, the lowest first; each weight must be a finite number. -/
def weighted (sum : Binary64) (weight : Nat) : List Binary64 → Except Fault Binary64
  | [] => .ok sum
  | place :: places =>
      match Binary64.ofDecimal false weight 0 with
      | .infinite _ => .error .placeOverflow
      | factor => weighted (sum.add (place.mul factor)) (weight * 60) places

def zero : Binary64 := .finite false 0 Binary64.leastExponent

/-- The spelling of a number with a fraction: in small letters and without bars. -/
def floatSpelled (text : Codes) : Codes := Text.lower (text.filter (· != .char '_'))

/-- The undefined number is written as such. -/
def isUndefined (text : Codes) : Bool :=
  (splitSign CodePoint.shown (floatSpelled text)).2 == Codes.ofString ".nan"

/-- The value of a number with a fraction: infinite, undefined, to base sixty or decimal. -/
def floatValue (text : Codes) : Except Fault Binary64 := do
  let spelled := floatSpelled text
  if spelled.isEmpty then throw .emptyNumber
  if isUndefined text then return .undefined
  let (negative, body) := splitSign CodePoint.shown spelled
  let value ←
    if body = ".inf" then pure (.infinite false)
    else if body.contains (.char ':') then do
      weighted zero 1 (← (Codes.split ':' body).mapM readFloat).reverse
    else readFloat body
  return if negative then negate value else value

/-- The first six digits of a fraction of a second. -/
def microseconds (fraction : Text) : Nat :=
  natOf 10 ((fraction ++ List.replicate 6 '0').take 6)

def momentValue (text : Text) (written : Written) : Except Fault Scalar := do
  let number (span : Span) : Nat := natOf 10 (text.slice span)
  let date : Date := ⟨number written.year, number written.month, number written.day⟩
  match written.clock with
  | none => return .date (← date.check)
  | some (hour, minute, second, fraction, zone) =>
      let offset ← zone.mapM fun
        | none => pure (0 : Int)
        | some (sign, hours, minutes) =>
            checkOffset
              (signed (text.slice sign = ['-']) (number hours * 60 + (minutes.map number).getD 0))
      let clock : Clock :=
        ⟨number hour, number minute, number second,
          (fraction.map fun span => microseconds (text.slice span)).getD 0, offset⟩
      return .time (← date.check) (← clock.check)

/-- The bytes that a text writes; only characters of the first 128 may occur. -/
def binaryValue (text : Text) : Except Fault Scalar :=
  match if text.all (·.toNat < 128) then Text.Base64.decode? text else none with
  | some bytes => .ok (.binary bytes)
  | none => .error .construction

/-- The value of a text as the node with a number, of a kind. -/
def valueAs (number : Nat) (kind : Kind) (text : Codes) : Except Fault Scalar :=
  match kind with
  | .null => .ok .null
  | .bool =>
      match truths.lookup (String.ofList (Text.lower text).shown) with
      | some value => .ok (.bool value)
      | none => .error .badTruth
  | .int => .int <$> intValue text
  | .float => do
      match ← floatValue text with
      | .undefined => return if isUndefined text then .float .undefined else .computed number
      | value => return .float value
  | .binary => binaryValue text.shown
  | .moment =>
      match momentFrom looseDate text.shown with
      | some written => momentValue text.shown written
      | none => .error .notMoment
  | .text => .ok (.text text)
  | _ => .error .construction

end ImportAudit.Yaml.Scalar
