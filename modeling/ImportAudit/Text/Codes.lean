import ImportAudit.Text.Basic

/-! Text as escapes can write it: a sequence of code points, of which some are no characters. A
surrogate is one half of the code for a character, and alone it stands for none. The 128 surrogates
that stand for single bytes of a file name are left out, as are names that are no text. -/
namespace ImportAudit

/-- The code of a surrogate that stands for no byte. -/
def IsSurrogate (code : Nat) : Prop :=
  (0xD800 ≤ code ∧ code < 0xDC80) ∨ (0xDD00 ≤ code ∧ code < 0xE000)

instance : DecidablePred IsSurrogate := fun _ => inferInstanceAs (Decidable (_ ∨ _))

inductive CodePoint
  | char (c : Char)
  | surrogate (code : Nat) (lone : IsSurrogate code)
deriving DecidableEq, Repr

namespace CodePoint

def toNat : CodePoint → Nat
  | char c => c.toNat
  | surrogate code _ => code

instance : LT CodePoint := ⟨fun a b => a.toNat < b.toNat⟩

instance : DecidableLT CodePoint := fun a b => inferInstanceAs (Decidable (a.toNat < b.toNat))

def char? : CodePoint → Option Char
  | char c => some c
  | surrogate _ _ => none

/-- The character, or the one that replaces what is none. -/
def shown : CodePoint → Char
  | char c => c
  | surrogate _ _ => '\ufffd'

end CodePoint

abbrev Codes := List CodePoint

namespace Codes

def ofText (text : Text) : Codes := text.map .char

def ofString (text : String) : Codes := ofText text.toList

instance : Coe String Codes := ⟨ofString⟩

def shown (codes : Codes) : Text := codes.map CodePoint.shown

/-- The text, if all code points are characters. -/
def string? (codes : Codes) : Option String := (codes.mapM CodePoint.char?).map String.ofList

/-- The pieces between the separators; there is one more piece than separators. -/
def split (separator : Char) : Codes → List Codes
  | [] => [[]]
  | code :: rest =>
      if code = .char separator then [] :: split separator rest
      else
        match split separator rest with
        | [] => [[code]]
        | piece :: pieces => (code :: piece) :: pieces

@[simp] theorem shown_ofText (text : Text) : (ofText text).shown = text := by
  simp [ofText, shown, Function.comp_def, CodePoint.shown]

theorem mapM_char?_eq_some_iff {codes : Codes} {text : Text} :
    codes.mapM CodePoint.char? = some text ↔ codes = ofText text := by
  induction codes generalizing text with
  | nil => cases text <;> simp [ofText]
  | cons code codes ih =>
      cases code with
      | surrogate code lone => cases text <;> simp [CodePoint.char?, ofText]
      | char c =>
          cases text with
          | nil => simp [CodePoint.char?, ofText, Option.bind_eq_some_iff]
          | cons first text =>
              simpa [CodePoint.char?, ofText, Option.bind_eq_some_iff, ih] using and_comm

/-- The text of code points is the one that they are the code points of. -/
theorem string?_eq_some_iff {codes : Codes} {text : String} :
    codes.string? = some text ↔ codes = ofString text := by
  simp only [string?, Option.map_eq_some_iff, mapM_char?_eq_some_iff, ofString]
  constructor
  · rintro ⟨letters, rfl, rfl⟩
    rw [String.toList_ofList]
  · rintro rfl
    exact ⟨text.toList, rfl, String.ofList_toList⟩

@[simp] theorem string?_ofString (text : String) : (ofString text).string? = some text :=
  string?_eq_some_iff.mpr rfl

theorem ofString_inj {text other : String} : ofString text = ofString other ↔ text = other := by
  rw [← string?_eq_some_iff, string?_ofString, Option.some.injEq]

end Codes
end ImportAudit
