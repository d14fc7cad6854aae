import ImportAudit.Text.Decoder
import ImportAudit.Yaml.Fault

/-! A document as a stream of characters. The characters are fetched in stretches and only when they
are looked at, two stretches at the start and one at a time from then on. A character that may not
occur, or bytes that are no text, do no harm before their stretch is fetched. -/
namespace ImportAudit.Yaml

/-- A fault that shows once more than `limit` characters have been looked at. -/
structure Obstacle where
  limit : Nat
  fault : Fault
deriving DecidableEq, Repr

/-- Whether the obstacle is met when so many characters have been looked at. -/
def Obstacle.isMet (obstacle : Obstacle) (seen : Nat) : Bool := obstacle.limit < seen

/-- `text` reaches at least as far as the characters can be looked at. -/
structure Stream where
  text : Text
  obstacle : Option Obstacle

namespace Stream

/-- Characters in a stretch. -/
def stretch : Nat := 4096

/-- How far one can look before a stretch is fetched; the first two are fetched at the start. -/
def limitBefore (number : Nat) : Nat := if number < 2 then 0 else number * stretch

/-- Characters that may occur in a document. -/
def isReadable (c : Char) : Bool :=
  let code := c.toNat
  code == 0x09 || code == 0x0A || code == 0x0D || (0x20 ≤ code && code ≤ 0x7E) || code == 0x85 ||
    (0xA0 ≤ code && code ≤ 0xFFFD) || 0x10000 ≤ code

/-- The first character that may not occur. -/
def unreadable? (text : Text) : Option Obstacle :=
  (text.findIdx? (!isReadable ·)).map fun position =>
    ⟨limitBefore (position / stretch), .unreadable⟩

/-- Of two obstacles the one that shows first; bytes are decoded before characters are judged. -/
def nearer (decoding reading : Option Obstacle) : Option Obstacle :=
  match decoding, reading with
  | some a, some b => if a.limit ≤ b.limit then some a else some b
  | some a, none => some a
  | none, reading => reading

/-- The stream of some bytes. -/
def ofBytes (bytes : Text.Utf8.Bytes) : Stream :=
  let (fetched, fault?) := (Text.Decoder.start bytes).stretches stretch (bytes.length + 1) []
  let text := fetched.reverse.flatten
  let decoding := fault?.map fun fault => ⟨limitBefore fetched.length, .undecodable fault⟩
  ⟨text, nearer decoding (unreadable? text)⟩

end Stream
end ImportAudit.Yaml
