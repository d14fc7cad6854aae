import ImportAudit.Pattern.Ways
import ImportAudit.Text.Basic
import ImportAudit.Text.CharClass
import ImportAudit.Text.WordChar

/-! Patterns over text. A pattern maps a place in the text to every way it can match there, the
preferred way first. Greedy repetition prefers more characters, reluctant repetition fewer, and an
alternative prefers its first branch. -/
namespace ImportAudit

/-- A place in a text: the character just before it, its offset, and the text from it on. -/
structure Cursor where
  prev : Option Char
  offset : Nat
  rest : Text
deriving DecidableEq, Repr

namespace Cursor

def start (text : Text) : Cursor := ⟨none, 0, text⟩

/-- The place after the character `c`, where `rest` follows. -/
def past (cursor : Cursor) (c : Char) (rest : Text) : Cursor :=
  ⟨some c, cursor.offset + 1, rest⟩

/-- The place after a text, if it follows. -/
def after? (cursor : Cursor) (text : Text) : Option Cursor :=
  advance cursor.prev cursor.offset cursor.rest text
where
  /-- The place after `text`, if `rest` starts with it. -/
  advance (prev : Option Char) (offset : Nat) (rest : Text) : Text → Option Cursor
    | [] => some ⟨prev, offset, rest⟩
    | c :: cs =>
        match rest with
        | [] => none
        | d :: rest => if d == c then advance (some d) (offset + 1) rest cs else none

/-- The place after every character of the class that follows. -/
def skip (accepts : Char → Bool) (prev : Option Char) (offset : Nat) : Text → Cursor
  | [] => ⟨prev, offset, []⟩
  | c :: rest =>
      if accepts c then skip accepts (some c) (offset + 1) rest else ⟨prev, offset, c :: rest⟩

/-- The places through characters of the class at which a test of the character before and the text
after holds, the nearest first. -/
def near (accepts : Char → Bool) (holds : Option Char → Text → Bool) (prev : Option Char)
    (offset : Nat) : Text → Ways Cursor
  | [] => if holds prev [] then .only ⟨prev, offset, []⟩ else .none
  | c :: rest =>
      if holds prev (c :: rest) then
        .way ⟨prev, offset, c :: rest⟩ fun _ =>
          if accepts c then near accepts holds (some c) (offset + 1) rest else .none
      else if accepts c then near accepts holds (some c) (offset + 1) rest
      else .none

/-- The same places, the farthest first, before those already reached. -/
def far (accepts : Char → Bool) (holds : Option Char → Text → Bool) (prev : Option Char)
    (offset : Nat) (reached : List Cursor) : Text → List Cursor
  | [] => if holds prev [] then ⟨prev, offset, []⟩ :: reached else reached
  | c :: rest =>
      let reached := if holds prev (c :: rest) then ⟨prev, offset, c :: rest⟩ :: reached else reached
      if accepts c then far accepts holds (some c) (offset + 1) reached rest else reached

/-- The two orders are the reverse of each other. -/
theorem far_eq_reverse_near (accepts : Char → Bool) (holds : Option Char → Text → Bool)
    (prev : Option Char) (offset : Nat) (reached : List Cursor) (text : Text) :
    far accepts holds prev offset reached text =
      (near accepts holds prev offset text).toList.reverse ++ reached := by
  induction text generalizing prev offset reached with
  | nil => cases held : holds prev [] <;> simp [far, near, held]
  | cons c rest ih =>
      cases held : holds prev (c :: rest) <;> cases taken : accepts c <;>
        simp [far, near, held, taken, ih, Ways.toList]

end Cursor

def Pattern (α : Type) := Cursor → Ways (α × Cursor)

namespace Pattern

variable {α : Type}

instance : Monad Pattern where
  pure a := fun cursor => .only (a, cursor)
  bind p next := fun cursor => (p cursor).flatMap fun (a, after) => next a after

def here : Pattern Nat := fun cursor => .only (cursor.offset, cursor)

/-- One character of the class. -/
def one (accepts : Char → Bool) : Pattern Unit := fun cursor =>
  match cursor.rest with
  | [] => .none
  | c :: rest => if accepts c then .only ((), cursor.past c rest) else .none

def char (c : Char) : Pattern Unit := one (· == c)

/-- The pattern where a character of the class comes next, which stays. -/
def headed (accepts : Char → Bool) (p : Pattern α) : Pattern α := fun cursor =>
  match cursor.rest with
  | [] => .none
  | c :: _ => if accepts c then p cursor else .none

def chars (text : Text) : Pattern Unit := fun cursor =>
  match cursor.after? text with
  | none => .none
  | some after => .only ((), after)

@[inline] def literal (word : String) : Pattern Unit := chars word.toList

/-- Both branches, the first preferred. -/
def either (p q : Pattern α) : Pattern α := fun cursor =>
  (p cursor).append fun _ => q cursor

def anyOf : List (Pattern α) → Pattern α
  | [] => fun _ => .none
  | p :: ps => either p (anyOf ps)

/-- The pattern if it matches, else nothing. -/
def maybe (p : Pattern Unit) : Pattern Unit := either p (pure ())

/-- The pattern's value if it matches, else `none`. -/
def maybe? (p : Pattern α) : Pattern (Option α) := either (some <$> p) (pure none)

/-- Any number of characters of the class, as few as possible, up to a place where the test holds. -/
def fewUntil (accepts : Char → Bool) (holds : Option Char → Text → Bool) : Pattern Unit :=
  fun cursor =>
    (Cursor.near accepts holds cursor.prev cursor.offset cursor.rest).flatMap fun after =>
      .only ((), after)

/-- Any number of characters of the class, as many as possible, up to a place where the test
holds. -/
def manyUntil (accepts : Char → Bool) (holds : Option Char → Text → Bool) : Pattern Unit :=
  fun cursor =>
    (Ways.ofList (Cursor.far accepts holds cursor.prev cursor.offset [] cursor.rest)).flatMap
      fun after => .only ((), after)

/-- Any number of characters of the class, as many as possible. -/
def many (accepts : Char → Bool) : Pattern Unit := manyUntil accepts fun _ _ => true

/-- Every character of the class that follows. Where what comes next cannot start with a character of
the class this finds what `many` finds (`SameFirst.run_many`). -/
def run (accepts : Char → Bool) : Pattern Unit := fun cursor =>
  .only ((), Cursor.skip accepts cursor.prev cursor.offset cursor.rest)

def many1 (accepts : Char → Bool) : Pattern Unit := do one accepts; many accepts

def run1 (accepts : Char → Bool) : Pattern Unit := do one accepts; run accepts

/-- At most `limit` steps, as few as possible. -/
def upTo (step : Cursor → Option Cursor) : Nat → Pattern Unit
  | 0 => pure ()
  | limit + 1 => fun cursor =>
      .way ((), cursor) fun _ =>
        match step cursor with
        | none => .none
        | some after => upTo step limit after

/-- Any number of repetitions of a pattern that consumes text, as few as possible. Each repetition
matches in its preferred way. -/
def fewTimes (p : Pattern Unit) : Pattern Unit := fun cursor =>
  upTo (fun cursor => (p cursor).first?.map Prod.snd) cursor.rest.length cursor

/-- The stretch that a pattern matches. -/
def spanOf (p : Pattern Unit) : Pattern Span := do
  let start ← here
  p
  let stop ← here
  return ⟨start, stop⟩

/-- A test of the characters on the two sides of the place; no text is consumed. -/
def between (holds : Option Char → Option Char → Bool) : Pattern Unit := fun cursor =>
  if holds cursor.prev cursor.rest.head? then .only ((), cursor) else .none

def notAfter (rejects : Char → Bool) : Pattern Unit :=
  between fun prev _ => !prev.any rejects

def notBefore (rejects : Char → Bool) : Pattern Unit :=
  between fun _ next => !next.any rejects

/-- A word character on exactly one side. -/
def isBoundary (prev next : Option Char) : Bool := prev.any Text.isWord != next.any Text.isWord

def boundary : Pattern Unit := between isBoundary

def atEnd : Pattern Unit := between fun _ next => next.isNone

def blanks : Pattern Unit := many Text.isBlank

def blanks1 : Pattern Unit := many1 Text.isBlank

/-- All blanks that follow. -/
def blankRun : Pattern Unit := run Text.isBlank

def blankRun1 : Pattern Unit := run1 Text.isBlank

/-- The text, where it starts at a word boundary. -/
def wordChars (text : Text) : Pattern Unit := fun cursor =>
  match cursor.after? text with
  | none => .none
  | some after =>
      if isBoundary cursor.prev cursor.rest.head? then .only ((), after) else .none

@[inline] def keyword (word : String) : Pattern Unit := wordChars word.toList

end Pattern
end ImportAudit
