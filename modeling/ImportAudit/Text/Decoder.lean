import ImportAudit.Text.Basic
import ImportAudit.Text.Utf8

/-! Reading bytes as text block by block. A sequence that is cut by the end of a block is completed from
the next block, and a carriage return at the end of a block waits for a line feed that may follow. A
malformed stretch is found when its block is read; all characters before that block can be had. -/
namespace ImportAudit.Text

/-- `rest` holds the bytes that have not been read, `held` the start of a sequence and `heldReturn`
whether a carriage return is held back. `ready` are characters to be handed out, `readyCount` of them.
The last two fields tell how many bytes the last block had and how many characters it made. -/
structure Decoder where
  rest : Utf8.Bytes
  held : Utf8.Bytes
  heldReturn : Bool
  ready : Text
  readyCount : Nat
  blockBytes : Nat
  blockChars : Nat

namespace Decoder

def start (bytes : Utf8.Bytes) : Decoder := ⟨bytes, [], false, [], 0, 0, 0⟩

/-- Blocks have at least this many bytes, the last one apart. -/
def leastBlock : Nat := 8192

/-- The size of the next block when so many characters are wanted: as many bytes as they take if they
are like those of the last block. -/
def blockSize (wanted : Nat) (decoder : Decoder) : Nat :=
  let expected :=
    if decoder.blockChars = 0 then wanted
    else max wanted (decoder.blockBytes * wanted / decoder.blockChars)
  max leastBlock expected

/-- Reads a block when so many characters are wanted; no bytes at all are the end. The answer tells
whether anything came of it. -/
def refill (wanted : Nat) (decoder : Decoder) : Except Utf8.Fault (Bool × Decoder) := do
  let (block, rest) := decoder.rest.splitAt (decoder.blockSize wanted)
  let atEnd := block.isEmpty
  let (reversed, fault?) := Utf8.strictFrom 0 [] (Utf8.pieces (decoder.held ++ block))
  let held ←
    match fault? with
    | none => pure []
    | some fault =>
        if fault.reason = .unexpectedEnd ∧ !atEnd then pure fault.bytes else throw fault
  let nothing := reversed.isEmpty && !atEnd
  let heldReturn :=
    if nothing then decoder.heldReturn else !atEnd && reversed.head? == some '\r'
  let reversed := if heldReturn && !nothing then reversed.tail else reversed
  let decoded := reversed.reverse
  let text := unifyLineEndings (if decoder.heldReturn && !nothing then '\r' :: decoded else decoded)
  let count := text.length
  return (!atEnd || 0 < count,
    ⟨rest, held, heldReturn, decoder.ready ++ text, decoder.readyCount + count, block.length, count⟩)

/-- Hands out characters, as many as are wanted unless the bytes end before. -/
def fetch (wanted : Nat) : Nat → Decoder → Except Utf8.Fault (Text × Decoder)
  | 0, decoder => .ok (decoder.ready, decoder)
  | fuel + 1, decoder => do
      let handOut (decoder : Decoder) : Text × Decoder :=
        let (text, ready) := decoder.ready.splitAt wanted
        (text, { decoder with ready, readyCount := decoder.readyCount - text.length })
      if wanted ≤ decoder.readyCount then return handOut decoder
      let (goesOn, decoder) ← decoder.refill (wanted - decoder.readyCount)
      if goesOn then fetch wanted fuel decoder else return handOut decoder

/-- The characters fetched in stretches of so many, the last stretch first, up to the first stretch that
cannot be fetched, and why not. -/
def stretches (size : Nat) : Nat → List Text → Decoder → List Text × Option Utf8.Fault
  | 0, fetched, _ => (fetched, none)
  | fuel + 1, fetched, decoder =>
      match decoder.fetch size (size + 3) with
      | .error fault => (fetched, some fault)
      | .ok ([], _) => (fetched, none)
      | .ok (stretch, decoder) => stretches size fuel (stretch :: fetched) decoder

end Decoder
end ImportAudit.Text
