import ImportAudit.Yaml.Token
import ImportAudit.Yaml.Token.Scalar

/-! The smaller tokens that are spelled out: anchors, aliases, tags and directives. -/
namespace ImportAudit.Yaml.Token.Property

def isNameChar (c : Char) : Bool := c.isAlphanum || c == '-' || c == '_'

def isUriChar (c : Char) : Bool := c.isAlphanum || "-;/?:@&=+$,_.!~*'()[]".toList.contains c

/-- The name of an anchor or alias; `place` is at its sign. -/
def name (place : Place) : Lexed (String × Place) :=
  let letters := place.next.run isNameChar
  let after := place.next.advance letters.length
  if letters.isEmpty then place.next.fail
  else if endsWord after.current || "?:,]\x7d%@`".toList.contains after.current then
    .ok (String.ofList letters, after)
  else after.fail

/-- The bytes of the percent escapes from here on, on top of those read. -/
def escapedBytes : Nat → Text.Utf8.Bytes → Place → Lexed (Text.Utf8.Bytes × Place)
  | 0, bytes, place => .ok (bytes, place)
  | fuel + 1, bytes, place =>
      if place.current == '%' then
        let first := place.next
        let digits := (first.rest.take 2).takeWhile fun c => (Scalar.hexDigit? c).isSome
        if digits.length < 2 then (first.see (digits.length + 1)).fail
        else
          let byte := ((Scalar.hexValue? digits).getD 0).toUInt8
          escapedBytes fuel (bytes ++ [byte]) (first.advance 2)
      else .ok (bytes, place)

/-- The characters of a tag or handle expansion; escapes in a row are UTF-8. `read` has been read, the
last character first. -/
def uriFrom : Nat → Text → Place → Lexed (Text × Place)
  | 0, read, place => .ok (read, place)
  | fuel + 1, read, place =>
      if place.current == '%' then do
        let (bytes, after) ← escapedBytes place.fuel [] place
        match Text.Utf8.strictFrom 0 [] (Text.Utf8.pieces bytes) with
        | (decoded, none) => uriFrom fuel (decoded ++ read) after
        | (_, some _) => after.fail
      else if isUriChar place.current then
        uriFrom fuel (place.current :: read) place.next
      else .ok (read, place)

def uri (place : Place) : Lexed (String × Place) := do
  let (read, after) ← uriFrom place.fuel [] place
  if read.isEmpty then after.fail
  return (String.ofList read.reverse, after)

/-- A tag handle: two exclamation marks with a name between them, or a single mark. -/
def tagHandle (place : Place) : Lexed (String × Place) :=
  if place.current != '!' then place.fail
  else if place.look 1 == ' ' then .ok ("!", place.next)
  else
    let letters := place.next.run isNameChar
    let after := place.next.advance letters.length
    if after.current == '!' then .ok ("!" ++ String.ofList letters ++ "!", after.next)
    else after.fail

/-- The token of the tag whose mark stands here. -/
def tag (place : Place) : Lexed (Token × Place) := do
  let (token, after) ←
    if place.look 1 == '<' then do
      let (rest, after) ← uri (place.advance 2)
      if after.current != '>' then after.fail
      pure (Token.tag none rest, after.next)
    else if endsWord (place.look 1) then pure (Token.tag none "!", place.next)
    else do
      let word := place.next.run fun c => c != ' ' && !isBreak c && c != '!'
      let marked := place.look (word.length + 1) == '!'
      let place := place.see (word.length + 2)
      let (start, after) ← if marked then tagHandle place else pure ("!", place.next)
      let (rest, after) ← uri after
      pure (Token.tag (some start) rest, after)
  if !(after.current == ' ' || endsLine after.current) then after.fail
  return (token, after)

def digits (place : Place) : Lexed (Nat × Place) :=
  let run := place.run Char.isDigit
  let after := place.advance run.length
  if run.isEmpty then place.fail
  else if Fault.digitLimit < run.length then after.failWith (.tooManyDigits (some run.length))
  else .ok (run.foldl (fun n c => n * 10 + (c.toNat - 48)) 0, after)

/-- The rest of a directive's line may hold a comment only. -/
def lineEnd (place : Place) : Lexed Place :=
  let place := place.skip (· == ' ')
  let place := if place.current == '#' then place.skip (!isBreak ·) else place
  if endsLine place.current then .ok place.next else place.fail

/-- The directive whose percent sign stands here. -/
def directive (place : Place) : Lexed (Token × Place) := do
  let (word, after) ← do
    let letters := place.next.run isNameChar
    let after := place.next.advance letters.length
    if letters.isEmpty || !(after.current == ' ' || endsLine after.current) then after.fail
    pure (String.ofList letters, after)
  let blanks (place : Place) : Place := place.skip (· == ' ')
  if word = "YAML" then
    let (major, after) ← digits (blanks after)
    if after.current != '.' then after.fail
    let (minor, after) ← digits after.next
    if !(after.current == ' ' || endsLine after.current) then after.fail
    return (.version major minor, ← lineEnd after)
  else if word = "TAG" then
    let (start, after) ← tagHandle (blanks after)
    if after.current != ' ' then after.fail
    let (expansion, after) ← uri (blanks after)
    if !(after.current == ' ' || endsLine after.current) then after.fail
    return (.handle start expansion, ← lineEnd after)
  else return (.otherDirective, ← lineEnd (after.skip (!isBreak ·)))

end ImportAudit.Yaml.Token.Property
