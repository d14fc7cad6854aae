import ImportAudit.Text.Basic

/-! Blanking overwrites stretches of text with spaces and leaves line feeds, so that offsets and
lines keep their meaning. -/
namespace ImportAudit

/-- Whether an offset lies in a span; an empty or reversed span covers nothing. -/
def Span.covers (span : Span) (offset : Nat) : Bool :=
  decide (span.start ≤ offset) && decide (offset < span.stop)

namespace Text

/-- A non-empty span must end inside the text. -/
def Fits (text : Text) (span : Span) : Prop :=
  span.start < span.stop → span.stop ≤ text.length

instance (text : Text) (span : Span) : Decidable (Fits text span) :=
  inferInstanceAs (Decidable (_ → _))

def blankChar (c : Char) : Char :=
  if c = '\n' then c else ' '

/-- The text with every offset that some span covers blanked. -/
def blank (text : Text) (spans : List Span) : Text :=
  text.mapIdx fun offset c => if spans.any (·.covers offset) then blankChar c else c

/-- The text with the spans blanked, or nothing if some span does not fit. -/
def blank? (text : Text) (spans : List Span) : Option Text :=
  if ∀ span ∈ spans, Fits text span then some (text.blank spans) else none

end Text
end ImportAudit
