import ImportAudit.Text.Codes
import ImportAudit.Text.Printable
import ImportAudit.Text.Utf8

/-! Text quoted for a message: between single quotes, or double quotes when the text holds a single
quote and no double one. The quote, the backslash and characters that cannot be printed are
escaped. -/
namespace ImportAudit.Text.Quoted

/-- The last `width` hexadecimal digits of a number. -/
def hex (width n : Nat) : Text :=
  match width with
  | 0 => []
  | width + 1 => hex width (n / 16) ++ [Nat.digitChar (n % 16)]

def escape (quote c : Char) : Text :=
  if c = quote ∨ c = '\\' then ['\\', c]
  else if c = '\n' then ['\\', 'n']
  else if c = '\r' then ['\\', 'r']
  else if c = '\t' then ['\\', 't']
  else if isPrintable c then [c]
  else if c.toNat < 0x100 then ['\\', 'x'] ++ hex 2 c.toNat
  else if c.toNat < 0x10000 then ['\\', 'u'] ++ hex 4 c.toNat
  else ['\\', 'U'] ++ hex 8 c.toNat

def quoteFor (text : Text) : Char :=
  if '\'' ∈ text ∧ '"' ∉ text then '"' else '\''

def escapeCode (quote : Char) : CodePoint → Text
  | .char c => escape quote c
  | .surrogate code _ => ['\\', 'u'] ++ hex 4 code

def render (text : Codes) : String :=
  let quote := quoteFor text.shown
  String.ofList ([quote] ++ text.flatMap (escapeCode quote) ++ [quote])

/-- Bytes in the same way, with a mark in front; only those that are printable as single characters
stand for themselves. -/
def renderBytes (bytes : Utf8.Bytes) : String :=
  let text := bytes.map fun byte => Char.ofNat byte.toNat
  let quote := quoteFor text
  let written (c : Char) : Text :=
    if c.toNat < 0x7F then escape quote c else ['\\', 'x'] ++ hex 2 c.toNat
  String.ofList (['b', quote] ++ text.flatMap written ++ [quote])

end ImportAudit.Text.Quoted
