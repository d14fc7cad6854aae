import ImportAudit.Text.Basic

/-! Reading bytes as UTF-8. The bytes fall into well-formed sequences, each one code point, and
malformed stretches, each as long as the start of some well-formed sequence allows and at least one
byte. Lossy reading puts one replacement character for each malformed stretch; strict reading
reports the first one. -/
namespace ImportAudit.Text.Utf8

abbrev Bytes := List UInt8

/-- The one to four bytes of a code point: a leading byte that tells how many, then six bits in
each byte. -/
def encodeChar (c : Char) : Bytes :=
  let code := c.toNat
  if code < 0x80 then [code.toUInt8]
  else if code < 0x800 then [(0xC0 + code / 64).toUInt8, (0x80 + code % 64).toUInt8]
  else if code < 0x10000 then
    [(0xE0 + code / 4096).toUInt8, (0x80 + code / 64 % 64).toUInt8, (0x80 + code % 64).toUInt8]
  else
    [(0xF0 + code / 262144).toUInt8, (0x80 + code / 4096 % 64).toUInt8,
      (0x80 + code / 64 % 64).toUInt8, (0x80 + code % 64).toUInt8]

def encode (text : Text) : Bytes := text.flatMap encodeChar

/-- What a leading byte announces: how many bytes follow, the range of the first of them, and the
bits of the leading byte that belong to the code point. -/
structure Lead where
  following : Nat
  low : Nat
  high : Nat
  bits : Nat
deriving DecidableEq, Repr

/-- The range of the second byte shuts out overlong forms, surrogates and codes past the last. -/
def lead? (byte : Nat) : Option Lead :=
  if byte < 0x80 then some ⟨0, 0x80, 0xBF, byte⟩
  else if byte < 0xC2 then none
  else if byte < 0xE0 then some ⟨1, 0x80, 0xBF, byte % 32⟩
  else if byte = 0xE0 then some ⟨2, 0xA0, 0xBF, 0⟩
  else if byte = 0xED then some ⟨2, 0x80, 0x9F, 13⟩
  else if byte < 0xF0 then some ⟨2, 0x80, 0xBF, byte % 16⟩
  else if byte = 0xF0 then some ⟨3, 0x90, 0xBF, 0⟩
  else if byte < 0xF4 then some ⟨3, 0x80, 0xBF, byte % 8⟩
  else if byte = 0xF4 then some ⟨3, 0x80, 0x8F, 4⟩
  else none

inductive Reason
  | invalidStart
  | invalidContinuation
  | unexpectedEnd
deriving DecidableEq, Repr

def Reason.message : Reason → String
  | .invalidStart => "invalid start byte"
  | .invalidContinuation => "invalid continuation byte"
  | .unexpectedEnd => "unexpected end of data"

/-- A code point, or a malformed stretch with its bytes. -/
inductive Piece
  | scalar (c : Char)
  | malformed (bytes : Bytes) (reason : Reason)
deriving DecidableEq, Repr

/-- A sequence under way: the bytes so far and their bits, the range of the next byte, and how many
bytes are to come after it. -/
structure Pending where
  seen : Bytes
  bits : Nat
  low : Nat
  high : Nat
  further : Nat
deriving DecidableEq, Repr

/-- What a byte makes at the start of a sequence. -/
def opening (byte : UInt8) : List Piece × Option Pending :=
  match lead? byte.toNat with
  | none => ([.malformed [byte] .invalidStart], none)
  | some ⟨0, _, _, bits⟩ => ([.scalar (Char.ofNat bits)], none)
  | some ⟨further + 1, low, high, bits⟩ => ([], some ⟨[byte], bits, low, high, further⟩)

/-- What the next byte makes of a sequence under way; one that does not fit starts anew. -/
def resume (pending : Pending) (byte : UInt8) : List Piece × Option Pending :=
  if pending.low ≤ byte.toNat ∧ byte.toNat ≤ pending.high then
    let bits := pending.bits * 64 + byte.toNat % 64
    match pending.further with
    | 0 => ([.scalar (Char.ofNat bits)], none)
    | further + 1 => ([], some ⟨pending.seen ++ [byte], bits, 0x80, 0xBF, further⟩)
  else
    let (pieces, next) := opening byte
    (.malformed pending.seen .invalidContinuation :: pieces, next)

/-- The pieces of some bytes after a sequence under way. -/
def piecesFrom : Option Pending → Bytes → List Piece
  | none, [] => []
  | some pending, [] => [.malformed pending.seen .unexpectedEnd]
  | none, byte :: rest =>
      let (pieces, next) := opening byte
      pieces ++ piecesFrom next rest
  | some pending, byte :: rest =>
      let (pieces, next) := resume pending byte
      pieces ++ piecesFrom next rest

/-- The pieces of a sequence of bytes. -/
def pieces (bytes : Bytes) : List Piece := piecesFrom none bytes

def replacement : Char := '\ufffd'

def Piece.lossy : Piece → Char
  | .scalar c => c
  | .malformed _ _ => replacement

/-- The text with one replacement character for each malformed stretch. -/
def decodeLossy (bytes : Bytes) : Text := (pieces bytes).map Piece.lossy

/-- The first malformed stretch of some bytes, and where it starts. -/
structure Fault where
  position : Nat
  bytes : Bytes
  reason : Reason
deriving DecidableEq, Repr

def hexDigit (n : Nat) : Char := Nat.digitChar (n % 16)

def Fault.message (fault : Fault) : String :=
  let place :=
    match fault.bytes with
    | [byte] =>
        "byte 0x" ++ String.ofList [hexDigit (byte.toNat / 16), hexDigit byte.toNat] ++
          " in position " ++ toString fault.position
    | bytes =>
        "bytes in position " ++ toString fault.position ++ "-" ++
          toString (fault.position + bytes.length - 1)
  "'utf-8' codec can't decode " ++ place ++ ": " ++ fault.reason.message

/-- The characters before the first malformed stretch, the last first, and that stretch; the position
counts from the start of the bytes. -/
def strictFrom (position : Nat) (decoded : Text) : List Piece → Text × Option Fault
  | [] => (decoded, none)
  | .scalar c :: rest => strictFrom (position + (encodeChar c).length) (c :: decoded) rest
  | .malformed bytes reason :: _ => (decoded, some ⟨position, bytes, reason⟩)

end ImportAudit.Text.Utf8
