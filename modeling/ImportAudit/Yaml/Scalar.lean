import ImportAudit.Number.Binary64
import ImportAudit.Text.Quoted
import ImportAudit.Yaml.Moment

/-! The values that scalars can have, how they are ordered, and how they are written. -/
namespace ImportAudit.Yaml

/-- `computed` is the undefined number as the outcome of reading the node with a number; as a key it is
unlike every other. -/
inductive Scalar
  | null
  | bool (value : Bool)
  | int (value : Int)
  | float (value : Binary64)
  | computed (origin : Nat)
  | text (value : Codes)
  | binary (bytes : Text.Utf8.Bytes)
  | date (value : Date)
  | time (date : Date) (clock : Clock)
deriving DecidableEq, Repr, Inhabited

namespace Scalar

def signed (negative : Bool) (value : Nat) : Int := if negative then -(value : Int) else value

/-- A number as a quotient; infinities and the undefined number have none. -/
def quotient? : Scalar → Option (Int × Nat)
  | .bool value => some (if value then 1 else 0, 1)
  | .int value => some (value, 1)
  | .float (.finite negative mantissa exponent) =>
      let (top, bottom) := Binary64.quotient mantissa exponent
      some (signed negative top, bottom)
  | _ => none

/-- Scalars of one class can be ordered among themselves. -/
inductive OrderClass
  | null
  | number
  | text
  | binary
  | date
  | floatingTime
  | fixedTime
deriving DecidableEq, Repr

def orderClass : Scalar → OrderClass
  | .null => .null
  | .bool _ | .int _ | .float _ | .computed _ => .number
  | .text _ => .text
  | .binary _ => .binary
  | .date _ => .date
  | .time _ clock => if clock.offset.isSome then .fixedTime else .floatingTime

/-- Whether the first scalar comes before the second of the same class. -/
def precedes (a b : Scalar) : Bool :=
  match a, b with
  | .text s, .text t => s < t
  | .binary s, .binary t => s < t
  | .date d, .date e => d.ordinal < e.ordinal
  | .time d c, .time e k => instant d c < instant e k
  | .float .undefined, _ | _, .float .undefined | .computed _, _ | _, .computed _ => false
  | .float (.infinite negative), b => negative && b != .float (.infinite true)
  | a, .float (.infinite negative) => !negative && a != .float (.infinite false)
  | a, b =>
      match quotient? a, quotient? b with
      | some (n, d), some (m, e) => n * e < m * d
      | _, _ => false

/-- Whether two scalars are one key of a mapping: truth values count as one and zero. -/
def sameKey (a b : Scalar) : Bool :=
  match a, b with
  | .time d c, .time e k =>
      a.orderClass == b.orderClass && instant d c == instant e k
  | _, _ =>
      match quotient? a, quotient? b with
      | some (n, d), some (m, e) => n * e == m * d
      | _, _ => a == b

/-- Nothing, false, zero and the empty text. -/
def isVoid : Scalar → Bool
  | .null => true
  | .text value => value.isEmpty
  | .binary bytes => bytes.isEmpty
  | .date _ | .time _ _ => false
  | scalar =>
      match scalar.quotient? with
      | some (n, _) => n == 0
      | none => false

def renderOffset (offset : Int) : String :=
  if offset = 0 then "datetime.timezone.utc"
  else "datetime.timezone(" ++ renderMinutes offset ++ ")"

/-- Whole numbers of too many digits are not written. -/
def isWritable : Scalar → Bool
  | .int value => value.natAbs < Nat.pow 10 Fault.digitLimit
  | _ => true

/-- A scalar as it is written in a message. -/
def render : Scalar → String
  | .null => "None"
  | .bool value => if value then "True" else "False"
  | .int value => toString value
  | .float value => value.render
  | .computed _ => Binary64.undefined.render
  | .text value => Text.Quoted.render value
  | .binary bytes => Text.Quoted.renderBytes bytes
  | .date ⟨year, month, day⟩ =>
      "datetime.date(" ++ ", ".intercalate ([year, month, day].map toString) ++ ")"
  | .time ⟨year, month, day⟩ clock =>
      let tail :=
        if clock.microsecond ≠ 0 then [clock.second, clock.microsecond]
        else if clock.second ≠ 0 then [clock.second]
        else []
      let zone := (clock.offset.map fun offset => ["tzinfo=" ++ renderOffset offset]).getD []
      "datetime.datetime(" ++
        ", ".intercalate
          (([year, month, day, clock.hour, clock.minute] ++ tail).map toString ++ zone) ++ ")"

end Scalar
end ImportAudit.Yaml
