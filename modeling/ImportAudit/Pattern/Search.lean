import ImportAudit.Pattern.Basic

/-! Searching a text for a pattern: at each place the preferred way to match counts, the leftmost
match is found first, and the search for the next one goes on where the last one ended. -/
namespace ImportAudit

/-- A stretch of text that matches, with the pattern's value. -/
structure Match (α : Type) where
  span : Span
  value : α
deriving Repr

namespace Pattern

variable {α : Type}

/-- The preferred match at a place. -/
def matchAt? (p : Pattern α) (cursor : Cursor) : Option (Match α) :=
  (p cursor).first?.map fun (value, after) => ⟨⟨cursor.offset, after.offset⟩, value⟩

/-- The preferred match at the very start of a text. -/
def matchStart? (p : Pattern α) (text : Text) : Option (Match α) := p.matchAt? (.start text)

/-- The leftmost match from a place on. -/
def firstFrom (p : Pattern α) (prev : Option Char) (offset : Nat) (text : Text) :
    Option (Match α) :=
  match p.matchAt? ⟨prev, offset, text⟩ with
  | some found => some found
  | none =>
      match text with
      | [] => none
      | c :: rest => firstFrom p (some c) (offset + 1) rest

/-- The leftmost match in a text. -/
def first? (p : Pattern α) (text : Text) : Option (Match α) := firstFrom p none 0 text

def occurs (p : Pattern α) (text : Text) : Bool := (p.first? text).isSome

/-- The matches from left to right and without overlaps, once `skip` characters are passed. A match
that consumes nothing does not count. -/
def allFrom (p : Pattern α) : Nat → Option Char → Nat → Text → List (Match α)
  | _, _, _, [] => []
  | skip + 1, _, offset, c :: rest => allFrom p skip (some c) (offset + 1) rest
  | 0, prev, offset, c :: rest =>
      match p.matchAt? ⟨prev, offset, c :: rest⟩ with
      | none => allFrom p 0 (some c) (offset + 1) rest
      | some found =>
          if offset < found.span.stop then
            found :: allFrom p (found.span.stop - (offset + 1)) (some c) (offset + 1) rest
          else allFrom p 0 (some c) (offset + 1) rest

/-- The matches in a text, from left to right and without overlaps. -/
def all (p : Pattern α) (text : Text) : List (Match α) := p.allFrom 0 none 0 text

end Pattern
end ImportAudit
