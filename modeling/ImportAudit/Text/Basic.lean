/-! Text is a list of code points. Offsets count code points from zero, a span is the half-open
stretch between two offsets, and lines are numbered from one and end at a line feed. -/
namespace ImportAudit

abbrev Text := List Char

/-- The stretch of text from `start` up to, and not including, `stop`. -/
structure Span where
  start : Nat
  stop : Nat
deriving DecidableEq, Repr, Inhabited

namespace Text

def slice (text : Text) (span : Span) : Text :=
  (text.drop span.start).take (span.stop - span.start)

/-- The line after `count` further characters, from a line on. -/
def lineAfter (line : Nat) : Nat → Text → Nat
  | 0, _ => line
  | _, [] => line
  | count + 1, c :: rest => lineAfter (if c = '\n' then line + 1 else line) count rest

/-- The line that holds `offset`; offsets past the end belong to the last line. -/
def lineOf (text : Text) (offset : Nat) : Nat := lineAfter 1 offset text

theorem lineAfter_eq (line count : Nat) (text : Text) :
    lineAfter line count text = (text.take count).count '\n' + line := by
  induction text generalizing line count with
  | nil => cases count <;> simp only [lineAfter, List.take_nil, List.count_nil, Nat.zero_add]
  | cons c rest ih =>
      cases count with
      | zero => simp only [lineAfter, List.take_zero, List.count_nil, Nat.zero_add]
      | succ count =>
          by_cases feed : c = '\n'
          · simp [lineAfter, feed, ih]; omega
          · simp [lineAfter, feed, ih]

/-- Lines are counted by the line feeds before them. -/
theorem lineOf_eq (text : Text) (offset : Nat) :
    text.lineOf offset = (text.take offset).count '\n' + 1 := lineAfter_eq 1 offset text

/-- The pieces between the separators; there is one more piece than separators. -/
def split (separator : Char) : Text → List Text
  | [] => [[]]
  | c :: rest =>
      if c = separator then [] :: split separator rest
      else
        match split separator rest with
        | [] => [[c]]
        | piece :: pieces => (c :: piece) :: pieces

theorem not_mem_of_mem_split {separator : Char} {text piece : Text}
    (member : piece ∈ text.split separator) : separator ∉ piece := by
  induction text generalizing piece with
  | nil => simp_all [split]
  | cons c rest ih =>
      rw [split] at member
      by_cases same : c = separator
      · simp only [same, if_true, List.mem_cons] at member
        rcases member with rfl | member
        · exact List.not_mem_nil
        · exact ih member
      · simp only [same, if_false] at member
        cases pieces : split separator rest with
        | nil =>
            simp only [pieces, List.mem_singleton] at member
            simpa [member] using Ne.symm same
        | cons first others =>
            simp only [pieces, List.mem_cons] at member
            rcases member with rfl | member
            · have clean : separator ∉ first := ih (by simp [pieces])
              simpa [Ne.symm same] using clean
            · exact ih (by simp [pieces, member])

/-- A carriage return, alone or before a line feed, reads as one line feed. -/
def unifyLineEndings : Text → Text
  | [] => []
  | '\r' :: '\n' :: rest => '\n' :: unifyLineEndings rest
  | c :: rest => (if c = '\r' then '\n' else c) :: unifyLineEndings rest

/-- Lines joined by line feeds, without one after the last. -/
def joinLines : List String → String
  | [] => ""
  | [line] => line
  | line :: lines => line ++ "\n" ++ joinLines lines

end Text
end ImportAudit
