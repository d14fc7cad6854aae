import ImportAudit.Text.Utf8

/-! Bytes written as base 64. Characters outside the alphabet are passed over, and padding ends the
text once it completes a group of four. -/
namespace ImportAudit.Text.Base64

/-- The six bits of a character of the alphabet. -/
def value? (c : Char) : Option Nat :=
  if 'A' ≤ c ∧ c ≤ 'Z' then some (c.toNat - 65)
  else if 'a' ≤ c ∧ c ≤ 'z' then some (c.toNat - 71)
  else if '0' ≤ c ∧ c ≤ '9' then some (c.toNat + 4)
  else if c = '+' then some 62
  else if c = '/' then some 63
  else none

/-- `bytes` have been read, the last first. `filled` characters of a group of four have been seen, with
`bits` left over from the last of them, and `pads` signs of padding after it. -/
structure Reading where
  bytes : Utf8.Bytes
  filled : Nat
  bits : Nat
  pads : Nat

/-- Takes six bits in. -/
def Reading.take (value : Nat) (reading : Reading) : Reading :=
  match reading.filled with
  | 0 => ⟨reading.bytes, 1, value, 0⟩
  | 1 => ⟨(reading.bits * 4 + value / 16).toUInt8 :: reading.bytes, 2, value % 16, 0⟩
  | 2 => ⟨(reading.bits * 16 + value / 4).toUInt8 :: reading.bytes, 3, value % 4, 0⟩
  | _ => ⟨(reading.bits * 64 + value).toUInt8 :: reading.bytes, 0, 0, 0⟩

/-- The bytes, the last first, unless the last group is not complete. -/
def decodeFrom : Reading → Text → Option Utf8.Bytes
  | reading, [] => if reading.filled = 0 then some reading.bytes else none
  | reading, c :: rest =>
      if c = '=' then
        if 2 ≤ reading.filled then
          if 4 ≤ reading.filled + reading.pads + 1 then some reading.bytes
          else decodeFrom { reading with pads := reading.pads + 1 } rest
        else decodeFrom reading rest
      else
        match value? c with
        | none => decodeFrom reading rest
        | some value => decodeFrom (reading.take value) rest

def decode? (text : Text) : Option Utf8.Bytes :=
  (decodeFrom ⟨[], 0, 0, 0⟩ text).map List.reverse

end ImportAudit.Text.Base64
