/-! Numbers of the binary64 format: a whole mantissa below 2^53 times a power of two not below
2^-1074. A fraction is rounded to the nearest of them, and a tie goes to the even mantissa. -/
namespace ImportAudit

inductive Binary64
  | finite (negative : Bool) (mantissa : Nat) (exponent : Int)
  | infinite (negative : Bool)
  | undefined
deriving DecidableEq, Repr, Inhabited

namespace Binary64

def leastExponent : Int := -1074

def greatestExponent : Int := 971

/-- The nearest whole number to a quotient, the even one if two are equally near. -/
def roundDiv (numerator denominator : Nat) : Nat :=
  let quotient := numerator / denominator
  let twice := 2 * (numerator % denominator)
  if twice < denominator ∨ (twice = denominator ∧ quotient % 2 = 0) then quotient else quotient + 1

/-- A quotient times a power of a base, as a quotient. -/
def times (base : Nat) (power : Int) : Nat × Nat → Nat × Nat
  | (top, bottom) =>
      if power ≥ 0 then (top * Nat.pow base power.toNat, bottom)
      else (top, bottom * Nat.pow base (-power).toNat)

/-- The least mantissa of 53 binary digits. -/
def fullMantissa : Nat := Nat.pow 2 52

/-- The power of two at which the quotient's mantissa has 53 binary digits, if there is one. -/
def exponentFor (numerator denominator : Nat) : Int :=
  let guess : Int := (numerator.log2 : Int) - denominator.log2 - 52
  let (top, bottom) := times 2 (-guess) (numerator, denominator)
  max leastExponent (if top < bottom * fullMantissa then guess - 1 else guess)

/-- The number nearest to a quotient. -/
def ofQuotient (negative : Bool) (numerator denominator : Nat) : Binary64 :=
  if numerator = 0 then .finite negative 0 leastExponent
  else
    let exponent := exponentFor numerator denominator
    let (top, bottom) := times 2 (-exponent) (numerator, denominator)
    let mantissa := roundDiv top bottom
    let (mantissa, exponent) :=
      if mantissa = 2 * fullMantissa then (fullMantissa, exponent + 1) else (mantissa, exponent)
    if exponent > greatestExponent then .infinite negative else .finite negative mantissa exponent

/-- The number nearest to a whole number times a power of ten. Beyond 310 places before the point
every number is infinite, and beyond 330 after it every number is zero. -/
def ofDecimal (negative : Bool) (digits : Nat) (power : Int) : Binary64 :=
  let places : Int := (Nat.toDigits 10 digits).length + power
  if digits = 0 ∨ places < -330 then .finite negative 0 leastExponent
  else if 310 < places then .infinite negative
  else
    let (top, bottom) := times 10 power (digits, 1)
    ofQuotient negative top bottom

/-- The exact value of a finite number, as a quotient. -/
def quotient (mantissa : Nat) (exponent : Int) : Nat × Nat := times 2 exponent (mantissa, 1)

/-- The sum of two numbers, rounded. Infinities of unlike sign have none. -/
def add : Binary64 → Binary64 → Binary64
  | .finite n₁ m₁ e₁, .finite n₂ m₂ e₂ =>
      let (a, b) := quotient m₁ e₁
      let (c, d) := quotient m₂ e₂
      let signed (negative : Bool) (n : Nat) : Int := if negative then -(n : Int) else n
      let sum := signed n₁ (a * d) + signed n₂ (c * b)
      ofQuotient (sum < 0) sum.natAbs (b * d)
  | .infinite n₁, .finite _ _ _ => .infinite n₁
  | .finite _ _ _, .infinite n₂ => .infinite n₂
  | .infinite n₁, .infinite n₂ => if n₁ = n₂ then .infinite n₁ else .undefined
  | _, _ => .undefined

/-- The product of two numbers, rounded. An infinity times zero has none. -/
def mul : Binary64 → Binary64 → Binary64
  | .finite n₁ m₁ e₁, .finite n₂ m₂ e₂ =>
      let (a, b) := quotient m₁ e₁
      let (c, d) := quotient m₂ e₂
      ofQuotient (n₁ != n₂) (a * c) (b * d)
  | .infinite n₁, .finite n₂ m₂ _ => if m₂ = 0 then .undefined else .infinite (n₁ != n₂)
  | .finite n₁ m₁ _, .infinite n₂ => if m₁ = 0 then .undefined else .infinite (n₁ != n₂)
  | .infinite n₁, .infinite n₂ => .infinite (n₁ != n₂)
  | _, _ => .undefined

/-- The fewest decimal digits that read back as the number, with their power of ten: of two such
decimals the nearer, and of two equally near ones the even. `digits` counts up to 17, which always
suffice. -/
def shortestFrom (mantissa : Nat) (exponent : Int) (magnitude : Int) : Nat → Nat → Nat × Int
  | 0, _ => (mantissa, 0)
  | tries + 1, digits =>
      let power : Int := magnitude - digits + 1
      let (top, bottom) := times 10 (-power) (quotient mantissa exponent)
      let low := top / bottom
      let reads (n : Nat) : Bool := ofDecimal false n power == .finite false mantissa exponent
      let near := roundDiv top bottom
      let far := if near = low then low + 1 else low
      if reads near then (near, power)
      else if reads far then (far, power)
      else shortestFrom mantissa exponent magnitude tries (digits + 1)

/-- The power of ten of the first decimal digit of a positive number. -/
def magnitude (mantissa : Nat) (exponent : Int) : Int :=
  let (top, bottom) := quotient mantissa exponent
  let digitCount (n : Nat) : Int := (Nat.toDigits 10 n).length
  let guess := digitCount top - digitCount bottom
  let (scaledTop, scaledBottom) := times 10 (-guess) (top, bottom)
  if scaledBottom ≤ scaledTop then guess else guess - 1

/-- Significant digits without zeros at the end, and the place of the point after them. -/
def shortest (mantissa : Nat) (exponent : Int) : List Char × Int :=
  let (number, power) := shortestFrom mantissa exponent (magnitude mantissa exponent) 17 1
  let digits := Nat.toDigits 10 number
  ((digits.reverse.dropWhile (· == '0')).reverse, digits.length + power)

def zeros (count : Int) : List Char := List.replicate count.toNat '0'

/-- Decimal text: positional when the point lies from three places before the digits to sixteen
after their start, else with an exponent of at least two digits. -/
def renderDigits (digits : List Char) (point : Int) : List Char :=
  let count : Int := digits.length
  if -4 < point ∧ point ≤ 16 then
    if point ≤ 0 then ['0', '.'] ++ zeros (-point) ++ digits
    else if point < count then digits.take point.toNat ++ '.' :: digits.drop point.toNat
    else digits ++ zeros (point - count) ++ ['.', '0']
  else
    let power := point - 1
    let written := Nat.toDigits 10 power.natAbs
    let padded := if written.length < 2 then '0' :: written else written
    let fraction := if count = 1 then [] else '.' :: digits.drop 1
    digits.take 1 ++ fraction ++ ['e', if power < 0 then '-' else '+'] ++ padded

def render : Binary64 → String
  | .undefined => "nan"
  | .infinite negative => if negative then "-inf" else "inf"
  | .finite negative mantissa exponent =>
      let body :=
        if mantissa = 0 then "0.0".toList
        else
          let (digits, point) := shortest mantissa exponent
          renderDigits digits point
      String.ofList (if negative then '-' :: body else body)

end Binary64
end ImportAudit
