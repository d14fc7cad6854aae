import ImportAudit.Text.CharClass
import ImportAudit.Text.WordChar
import Mathlib.Data.List.Basic

/-! Tokens with blanks between them. `Spaced` leaves open which blanks stand in a gap, so a text can
be compared with the tokens it was made of in two ways: by its words, and by what it ends in once
trailing blanks are left out. -/
namespace ImportAudit.Text

theorem slice_append (before taken rest : Text) :
    (before ++ taken ++ rest).slice ⟨before.length, (before ++ taken).length⟩ = taken := by
  simp [slice]

/-- Where a text comes next, the next character is one of the text. -/
theorem holds_head {holds : Char → Prop} {text : Text} (nonempty : text ≠ [])
    (all : ∀ c ∈ text, holds c) (rest : Text) : ∀ c, (text ++ rest).head? = some c → holds c := by
  obtain ⟨d, others, rfl⟩ := List.exists_cons_of_ne_nil nonempty
  simpa using all d List.mem_cons_self

def blankCodes : List Nat :=
  List.range' 0x09 5 ++ List.range' 0x1C 5 ++ List.range' 0x2000 11 ++
    [0x85, 0xA0, 0x1680, 0x2028, 0x2029, 0x202F, 0x205F, 0x3000]

theorem mem_blankCodes {c : Char} (blank : isBlank c = true) : c.toNat ∈ blankCodes := by
  simp only [isBlank, Bool.or_eq_true, Bool.and_eq_true, decide_eq_true_eq, beq_iff_eq] at blank
  simp only [blankCodes, List.mem_append, List.mem_range'_1, List.mem_cons, List.not_mem_nil,
    or_false]
  omega

theorem isIdentifier_of_isBlank {c : Char} (blank : isBlank c = true) : isIdentifier c = false := by
  have plain : ∀ code ∈ blankCodes, isIdentifier (Char.ofNat code) = false := by decide +kernel
  have found := plain c.toNat (mem_blankCodes blank)
  rwa [Char.ofNat_toNat] at found

theorem isBlank_of_isIdentifier {c : Char} (part : isIdentifier c = true) : isBlank c = false := by
  cases blank : isBlank c with
  | false => rfl
  | true => simp [isIdentifier_of_isBlank blank] at part

/-- At least one character, and only blanks. -/
def IsGap (text : Text) : Prop := text ≠ [] ∧ ∀ c ∈ text, isBlank c = true

theorem IsGap.not_mem {gap : Text} (separated : IsGap gap) {c : Char} (solid : isBlank c = false) :
    c ∉ gap := fun member => by simp [separated.2 c member] at solid

theorem IsGap.head {gap : Text} (separated : IsGap gap) (rest : Text) :
    ∀ c, (gap ++ rest).head? = some c → isBlank c = true :=
  holds_head separated.1 separated.2 rest

theorem isGap_space : IsGap [' '] := ⟨by decide, List.forall_mem_singleton.mpr (by decide)⟩

/-- The tokens in order, with a gap between each two of them. An empty token at an end stands for the
gap there. -/
inductive Spaced : List Text → Text → Prop
  | last (token : Text) : Spaced [token] token
  | next (token : Text) {gap text : Text} {tokens : List Text} : IsGap gap → Spaced tokens text →
      Spaced (token :: tokens) (token ++ gap ++ text)

namespace Spaced

variable {text : Text} {tokens first second : List Text}

theorem joined (nonempty : tokens ≠ []) : Spaced tokens ([' '].intercalate tokens) := by
  induction tokens with
  | nil => contradiction
  | cons token tokens ih =>
      cases tokens with
      | nil => simpa using Spaced.last token
      | cons other tokens => simpa using Spaced.next token isGap_space (ih (by simp))

/-- A token can be taken out, with what stands on its two sides. -/
theorem split {token : Text} (spaced : Spaced (first ++ token :: second) text) :
    ∃ left right, text = left ++ token ++ right ∧ Spaced (first ++ [[]]) left ∧
      Spaced ([] :: second) right := by
  induction first generalizing text with
  | nil =>
      cases spaced with
      | last => exact ⟨[], [], by simp, .last [], .last []⟩
      | next _ gap later => exact ⟨[], _, by simp, .last [], .next [] gap later⟩
  | cons head first ih =>
      rw [List.cons_append] at spaced
      generalize others : first ++ token :: second = rest at spaced ih
      cases spaced with
      | last => simp at others
      | next _ gap later =>
          obtain ⟨left, right, rfl, before, after⟩ := ih later
          exact ⟨_, right, by simp, .next head gap before, after⟩

theorem eq_of_single {token : Text} (spaced : Spaced [token] text) : text = token := by
  cases spaced with
  | last => rfl
  | next _ _ later => cases later

theorem uncons {token : Text} (spaced : Spaced (token :: tokens) text) (more : tokens ≠ []) :
    ∃ gap rest, text = token ++ gap ++ rest ∧ IsGap gap ∧ Spaced tokens rest := by
  cases spaced with
  | last => contradiction
  | next _ gap later => exact ⟨_, _, rfl, gap, later⟩

theorem append (spaced : Spaced (first ++ second) text) (some : first ≠ []) (more : second ≠ []) :
    ∃ left gap right, text = left ++ gap ++ right ∧ Spaced first left ∧ IsGap gap ∧
      Spaced second right := by
  induction first generalizing text with
  | nil => contradiction
  | cons token first ih =>
      rw [List.cons_append] at spaced
      obtain ⟨gap, rest, rfl, separated, later⟩ := spaced.uncons (by simp [more])
      by_cases single : first = []
      · subst single
        exact ⟨token, gap, rest, rfl, .last token, separated, later⟩
      · obtain ⟨left, gap', right, rfl, before, separated', after⟩ := ih later single
        exact ⟨_, gap', right, by simp, .next token separated before, separated', after⟩

theorem isGap (spaced : Spaced [[], []] text) : IsGap text := by
  cases spaced with
  | next _ gap later => simpa [later.eq_of_single] using gap

/-- Every character is a blank or part of a token. -/
theorem mem (spaced : Spaced tokens text) {c : Char} (member : c ∈ text) :
    isBlank c = true ∨ ∃ token ∈ tokens, c ∈ token := by
  induction spaced with
  | last token => exact .inr ⟨token, by simp, member⟩
  | next token gap _ ih =>
      simp only [List.mem_append] at member
      rcases member with (inside | blank) | later
      · exact .inr ⟨token, by simp, inside⟩
      · exact .inl (gap.2 c blank)
      · rcases ih later with blank | ⟨other, listed, inside⟩
        · exact .inl blank
        · exact .inr ⟨other, List.mem_cons_of_mem _ listed, inside⟩

theorem solid_head (spaced : Spaced tokens text)
    (solid : ∀ token ∈ tokens, token ≠ [] ∧ ∀ c ∈ token, isBlank c = false) (rest : Text) :
    ∀ c, (text ++ rest).head? = some c → isBlank c = false := by
  cases spaced with
  | last =>
      obtain ⟨nonempty, unbroken⟩ := solid text List.mem_cons_self
      exact holds_head nonempty unbroken rest
  | next token =>
      obtain ⟨nonempty, unbroken⟩ := solid token List.mem_cons_self
      rw [List.append_assoc, List.append_assoc]
      exact holds_head nonempty unbroken _

theorem solid_last (spaced : Spaced tokens text)
    (solid : ∀ token ∈ tokens, token ≠ [] ∧ ∀ c ∈ token, isBlank c = false) :
    text ≠ [] ∧ ∀ c, text.getLast? = some c → isBlank c = false := by
  induction spaced with
  | last token =>
      obtain ⟨nonempty, unbroken⟩ := solid token List.mem_cons_self
      exact ⟨nonempty, fun c last => unbroken c (List.mem_of_getLast? last)⟩
  | next token _ _ ih =>
      obtain ⟨nonempty, ends⟩ := ih fun other member => solid other (List.mem_cons_of_mem _ member)
      refine ⟨by simp [nonempty], ?_⟩
      rwa [List.getLast?_append_of_ne_nil _ nonempty]

end Spaced

/-- The stretches between blanks that hold at least one character. -/
def words (text : Text) : List Text := (text.splitOnP isBlank).filter (· ≠ [])

section Words

variable {first second gap word : Text}

theorem words_of_unbroken (unbroken : ∀ c ∈ word, isBlank c = false) :
    words word = [word].filter (· ≠ []) := by
  rw [words, List.splitOnP_eq_singleton unbroken]

theorem words_gap (separated : IsGap gap) : words (first ++ gap ++ second) = words first ++ words second := by
  obtain ⟨nonempty, blank⟩ := separated
  induction gap generalizing first with
  | nil => contradiction
  | cons b gap ih =>
      have split : words (first ++ b :: (gap ++ second)) = words first ++ words (gap ++ second) := by
        rw [words, List.splitOnP_append_cons _ _ (blank b List.mem_cons_self), List.filter_append]
        rfl
      by_cases more : gap = []
      · subst more
        simpa using split
      · have later := @ih [] more fun c member => blank c (List.mem_cons_of_mem _ member)
        have none : words [] = [] := words_of_unbroken (by simp)
        rw [none] at later
        simp only [List.append_assoc, List.cons_append, List.nil_append] at split later ⊢
        rw [split, later]

theorem words_append_of_blank (blank : ∀ c ∈ second, isBlank c = true) :
    words (first ++ second) = words first := by
  by_cases nonempty : second = []
  · simp [nonempty]
  · have split := @words_gap first [] second ⟨nonempty, blank⟩
    have none : words [] = [] := words_of_unbroken (by simp)
    simpa [none] using split

theorem words_blank_append (blank : ∀ c ∈ first, isBlank c = true) :
    words (first ++ second) = words second := by
  by_cases nonempty : first = []
  · simp [nonempty]
  · have split := @words_gap [] second first ⟨nonempty, blank⟩
    have none : words [] = [] := words_of_unbroken (by simp)
    simpa [none] using split

theorem Spaced.words_eq {tokens : List Text} {text : Text} (spaced : Spaced tokens text)
    (unbroken : ∀ token ∈ tokens, ∀ c ∈ token, isBlank c = false) :
    words text = tokens.filter (· ≠ []) := by
  induction spaced with
  | last token => exact words_of_unbroken (unbroken token (by simp))
  | @next token gap text tokens separated _ ih =>
      have later := ih fun other member => unbroken other (List.mem_cons_of_mem _ member)
      rw [words_gap separated, words_of_unbroken (unbroken token (by simp)), later,
        ← List.filter_append, List.singleton_append]

end Words

theorem eq_nil_of_solid_end {kept extra : Text} (blank : ∀ c ∈ extra, isBlank c = true)
    (solid : ∀ c, (kept ++ extra).getLast? = some c → isBlank c = false) : extra = [] := by
  by_contra nonempty
  have last := List.getLast_mem nonempty
  have ends : isBlank (extra.getLast nonempty) = false := solid _ (by
    rw [List.getLast?_append_of_ne_nil _ nonempty, List.getLast?_eq_some_getLast nonempty])
  simp [blank _ last] at ends

/-- What stands before trailing blanks is determined. -/
theorem eq_of_append_blank {first second gap gap' : Text} (same : first ++ gap = second ++ gap')
    (blank : ∀ c ∈ gap, isBlank c = true) (blank' : ∀ c ∈ gap', isBlank c = true)
    (solid : ∀ c, first.getLast? = some c → isBlank c = false)
    (solid' : ∀ c, second.getLast? = some c → isBlank c = false) : first = second := by
  rcases List.append_eq_append_iff.mp same with ⟨extra, rfl, rfl⟩ | ⟨extra, rfl, rfl⟩
  · have empty := eq_nil_of_solid_end (fun c member => blank c (List.mem_append_left _ member)) solid'
    simp [empty]
  · have empty := eq_nil_of_solid_end (fun c member => blank' c (List.mem_append_left _ member)) solid
    simp [empty]

theorem dropWhile_blank_append {gap rest : Text} (blank : ∀ c ∈ gap, isBlank c = true)
    (solid : ∀ c, rest.head? = some c → isBlank c = false) : (gap ++ rest).dropWhile isBlank = rest := by
  rw [List.dropWhile_append_of_pos blank]
  cases rest with
  | nil => rfl
  | cons c rest => simp [solid c rfl]

/-- What comes behind leading blanks is determined. -/
theorem eq_of_blank_append {gap gap' first second : Text} (same : gap ++ first = gap' ++ second)
    (blank : ∀ c ∈ gap, isBlank c = true) (blank' : ∀ c ∈ gap', isBlank c = true)
    (solid : ∀ c, first.head? = some c → isBlank c = false)
    (solid' : ∀ c, second.head? = some c → isBlank c = false) : first = second := by
  rw [← dropWhile_blank_append blank solid, same, dropWhile_blank_append blank' solid']

end ImportAudit.Text
