import ImportAudit.Proofs.ImportItem
import Mathlib.Data.List.DropRight

/-! The tokens of a text. A token is a word, or any other character that is no blank; blanks only keep
words apart. What stands between two tokens is left open, so a text is described by its tokens
whatever its blanks. -/
namespace ImportAudit.Text

/-- The words of a text and its other characters, without the blanks. -/
def lex : Text → List Text
  | [] => []
  | c :: rest =>
      if isBlank c then lex rest
      else if isIdentifier c && rest.head?.any isIdentifier then
        match lex rest with
        | [] => [[c]]
        | token :: tokens => (c :: token) :: tokens
      else [c] :: lex rest

/-- No word goes from the end of one text on into another. -/
def Apart (first second : Text) : Prop :=
  first.getLast?.any isIdentifier = false ∨ second.head?.any isIdentifier = false

theorem any_isWord_of_isIdentifier {c? : Option Char} (other : c?.any isIdentifier = false) :
    c?.any isWord = false := by
  cases c? with
  | none => rfl
  | some c =>
      simp only [Option.any_some, isIdentifier, Bool.or_eq_false_iff] at other ⊢
      exact other.1

section Steps

variable {c : Char} {rest : Text}

theorem lex_blank (blank : isBlank c = true) : lex (c :: rest) = lex rest := by
  simp [lex, blank]

theorem lex_mark (solid : isBlank c = false) (other : isIdentifier c = false) :
    lex (c :: rest) = [c] :: lex rest := by
  simp [lex, solid, other]

theorem lex_word {word : Text} (nonempty : word ≠ []) (proper : ∀ c ∈ word, isIdentifier c = true)
    (ends : rest.head?.any isIdentifier = false) : lex (word ++ rest) = word :: lex rest := by
  induction word with
  | nil => contradiction
  | cons c word ih =>
      have part := proper c List.mem_cons_self
      have solid := isBlank_of_isIdentifier part
      cases word with
      | nil => simp [lex, solid, ends]
      | cons d word =>
          have later := ih (by simp) fun e member => proper e (List.mem_cons_of_mem c member)
          have next := proper d (by simp)
          simp only [List.cons_append] at later ⊢
          rw [lex, later]
          simp [solid, part, next]

/-- A word at the start of a text is determined by where it ends. -/
theorem word_append_inj {word word' rest' : Text} (same : word ++ rest = word' ++ rest')
    (proper : ∀ c ∈ word, isIdentifier c = true) (proper' : ∀ c ∈ word', isIdentifier c = true)
    (ends : rest.head?.any isIdentifier = false) (ends' : rest'.head?.any isIdentifier = false) :
    word = word' ∧ rest = rest' := by
  have taken : ∀ {word rest : Text}, (∀ c ∈ word, isIdentifier c = true) →
      rest.head?.any isIdentifier = false → (word ++ rest).takeWhile isIdentifier = word := by
    intro word rest proper ends
    rw [List.takeWhile_append_of_pos proper]
    cases rest with
    | nil => simp
    | cons c rest =>
        rw [List.takeWhile_cons_of_neg (by simpa using ends), List.append_nil]
  have words : word = word' := by rw [← taken proper ends, same, taken proper' ends']
  subst words
  exact ⟨rfl, List.append_cancel_left same⟩

end Steps

/-- A text is empty, or it starts with a blank, with another character that belongs to no word, or
with a whole word. -/
@[elab_as_elim]
theorem lexInduction {motive : Text → Prop} (nil : motive [])
    (blank : ∀ c rest, isBlank c = true → motive rest → motive (c :: rest))
    (mark : ∀ c rest, isBlank c = false → isIdentifier c = false → motive rest → motive (c :: rest))
    (word : ∀ (name : Script.Identifier) rest, rest.head?.any isIdentifier = false → motive rest →
      motive (name.text ++ rest)) (text : Text) : motive text := by
  match text with
  | [] => exact nil
  | c :: rest =>
      cases blankness : isBlank c with
      | true => exact blank c rest blankness (lexInduction nil blank mark word rest)
      | false =>
          cases part : isIdentifier c with
          | false => exact mark c rest blankness part (lexInduction nil blank mark word rest)
          | true =>
              have proper : ∀ d ∈ c :: rest.takeWhile isIdentifier, isIdentifier d = true := by
                intro d member
                rcases List.mem_cons.mp member with rfl | later
                · exact part
                · exact List.mem_takeWhile_imp later
              have ends : (rest.dropWhile isIdentifier).head?.any isIdentifier = false := by
                cases next : (rest.dropWhile isIdentifier).head? with
                | none => rfl
                | some d => simpa [next] using List.head?_dropWhile_not isIdentifier rest
              have whole := word ⟨c :: rest.takeWhile isIdentifier, by simp, proper⟩ _ ends
                (lexInduction nil blank mark word (rest.dropWhile isIdentifier))
              simpa using whole
termination_by text.length
decreasing_by
  all_goals
    have shorter := List.length_dropWhile_le isIdentifier rest
    simp only [List.length_cons]
    omega

namespace Apart

variable {lead first second rest : Text}

theorem behind (apart : Apart (lead ++ first) second) : Apart first second := by
  by_cases empty : first = []
  · exact .inl (by simp [empty])
  · exact apart.imp_left fun ends => by rwa [List.getLast?_append_of_ne_nil _ empty] at ends

theorem of_behind (apart : Apart first second) (nonempty : first ≠ []) :
    Apart (lead ++ first) second :=
  apart.imp_left fun ends => by rwa [List.getLast?_append_of_ne_nil _ nonempty]

end Apart

/-- What comes behind a name and apart from it does not start with a word. -/
theorem Apart.head (name : Script.Identifier) {rest : Text} (apart : Apart name.text rest) :
    rest.head?.any isIdentifier = false := by
  rcases apart with word | stop
  · rw [List.getLast?_eq_some_getLast name.nonempty, Option.any_some,
      name.proper _ (List.getLast_mem name.nonempty)] at word
    cases word
  · exact stop

variable {first second text gap : Text}

/-- A word that goes from one text on into another is one of neither. -/
theorem lex_append (apart : Apart first second) :
    lex (first ++ second) = lex first ++ lex second := by
  induction first using lexInduction with
  | nil => rfl
  | blank c rest blank ih =>
      rw [List.cons_append, lex_blank blank, lex_blank blank]
      exact ih (@Apart.behind [c] rest second apart)
  | mark c rest solid other ih =>
      rw [List.cons_append, lex_mark solid other, lex_mark solid other, List.cons_append,
        ih (@Apart.behind [c] rest second apart)]
  | word name rest ends ih =>
      have further : (rest ++ second).head?.any isIdentifier = false := by
        cases rest with
        | cons d rest => simpa using ends
        | nil => exact Apart.head name (by simpa using apart)
      rw [List.append_assoc, lex_word name.nonempty name.proper further,
        lex_word name.nonempty name.proper ends, List.cons_append, ih apart.behind]

theorem lex_blank_append (blank : ∀ c ∈ gap, isBlank c = true) : lex (gap ++ text) = lex text := by
  induction gap with
  | nil => rfl
  | cons c gap ih =>
      rw [List.cons_append, lex_blank (blank c List.mem_cons_self)]
      exact ih fun d member => blank d (List.mem_cons_of_mem c member)

theorem lex_of_blank (blank : ∀ c ∈ text, isBlank c = true) : lex text = [] := by
  have skipped := @lex_blank_append [] text blank
  rwa [List.append_nil] at skipped

theorem lex_identifier (name : Script.Identifier) : lex name.text = [name.text] := by
  have alone := @lex_word [] _ name.nonempty name.proper rfl
  simpa [lex] using alone

/-- The tokens of a text can be divided only where the text can. -/
theorem exists_of_lex_append {tokens others : List Text} (same : lex text = tokens ++ others) :
    ∃ left right, text = left ++ right ∧ lex left = tokens ∧ lex right = others ∧
      Apart left right := by
  induction text using lexInduction generalizing tokens with
  | nil =>
      obtain ⟨rfl, rfl⟩ := List.append_eq_nil_iff.mp same.symm
      exact ⟨[], [], rfl, rfl, rfl, .inl rfl⟩
  | blank c rest blank ih =>
      obtain ⟨left, right, rfl, first, second, apart⟩ := ih ((lex_blank blank).symm.trans same)
      refine ⟨c :: left, right, rfl, (lex_blank blank).trans first, second, ?_⟩
      by_cases empty : left = []
      · exact .inl (by simp [empty, isIdentifier_of_isBlank blank])
      · exact @Apart.of_behind [c] left right apart empty
  | mark c rest solid other ih =>
      rw [lex_mark solid other] at same
      cases tokens with
      | nil => exact ⟨[], c :: rest, rfl, rfl, (lex_mark solid other).trans same, .inl rfl⟩
      | cons token tokens =>
          obtain ⟨rfl, later⟩ := List.cons_eq_cons.mp same
          obtain ⟨left, right, rfl, first, second, apart⟩ := ih later
          refine ⟨c :: left, right, rfl, by rw [lex_mark solid other, first], second, ?_⟩
          by_cases empty : left = []
          · exact .inl (by simp [empty, other])
          · exact @Apart.of_behind [c] left right apart empty
  | word name rest ends ih =>
      rw [lex_word name.nonempty name.proper ends] at same
      cases tokens with
      | nil =>
          exact ⟨[], name.text ++ rest, rfl, rfl,
            (lex_word name.nonempty name.proper ends).trans same, .inl rfl⟩
      | cons token tokens =>
          obtain ⟨rfl, later⟩ := List.cons_eq_cons.mp same
          obtain ⟨left, right, rfl, first, second, apart⟩ := ih later
          have stop : left.head?.any isIdentifier = false := by
            cases left <;> simp_all
          refine ⟨name.text ++ left, right, by simp, ?_, second, ?_⟩
          · rw [lex_word name.nonempty name.proper stop, first]
          · by_cases empty : left = []
            · subst empty
              exact .inr (by simpa using ends)
            · exact apart.of_behind empty

/-- The first token of a text comes behind blanks. -/
theorem exists_of_lex_cons {token : Text} {tokens : List Text} (same : lex text = token :: tokens) :
    ∃ gap rest, text = gap ++ (token ++ rest) ∧ (∀ c ∈ gap, isBlank c = true) ∧
      lex rest = tokens ∧ Apart token rest := by
  induction text using lexInduction with
  | nil => cases same
  | blank c rest blank ih =>
      obtain ⟨gap, rest, rfl, blanks, later, apart⟩ := ih ((lex_blank blank).symm.trans same)
      exact ⟨c :: gap, rest, rfl, by simpa [blank] using blanks, later, apart⟩
  | mark c rest solid other ih =>
      obtain ⟨rfl, later⟩ := List.cons_eq_cons.mp ((lex_mark solid other).symm.trans same)
      exact ⟨[], rest, rfl, by simp, later, .inl (by simp [other])⟩
  | word name rest ends ih =>
      obtain ⟨rfl, later⟩ := List.cons_eq_cons.mp
        ((lex_word name.nonempty name.proper ends).symm.trans same)
      exact ⟨[], rest, rfl, by simp, later, .inr ends⟩

theorem isBlank_of_lex_eq_nil (none : lex text = []) : ∀ c ∈ text, isBlank c = true := by
  induction text using lexInduction with
  | nil => simp
  | blank c rest blank ih => simpa [blank] using ih ((lex_blank blank).symm.trans none)
  | mark c rest solid other _ => simp [lex_mark solid other] at none
  | word name rest ends _ => simp [lex_word name.nonempty name.proper ends] at none

/-- Every character is a blank or part of a token. -/
theorem mem_of_lex {c : Char} (member : c ∈ text) :
    isBlank c = true ∨ ∃ token ∈ lex text, c ∈ token := by
  induction text using lexInduction with
  | nil => cases member
  | blank d rest blank ih =>
      rw [lex_blank blank]
      rcases List.mem_cons.mp member with rfl | later
      · exact .inl blank
      · exact ih later
  | mark d rest solid other ih =>
      rw [lex_mark solid other]
      rcases List.mem_cons.mp member with rfl | later
      · exact .inr ⟨[c], List.mem_cons_self, List.mem_cons_self⟩
      · exact (ih later).imp_right fun ⟨token, listed, inside⟩ =>
          ⟨token, List.mem_cons_of_mem _ listed, inside⟩
  | word name rest ends ih =>
      rw [lex_word name.nonempty name.proper ends]
      rcases List.mem_append.mp member with inside | later
      · exact .inr ⟨name.text, List.mem_cons_self, inside⟩
      · exact (ih later).imp_right fun ⟨token, listed, inside⟩ =>
          ⟨token, List.mem_cons_of_mem _ listed, inside⟩

theorem Apart.of_blank (blank : ∀ c ∈ gap, isBlank c = true) (nonempty : gap ≠ []) :
    Apart first (gap ++ second) := by
  obtain ⟨c, gap, rfl⟩ := List.exists_cons_of_ne_nil nonempty
  exact .inr (by simpa using isIdentifier_of_isBlank (blank c List.mem_cons_self))

theorem lex_append_blank (blank : ∀ c ∈ gap, isBlank c = true) : lex (text ++ gap) = lex text := by
  by_cases empty : gap = []
  · rw [empty, List.append_nil]
  · have apart : Apart text gap := by simpa using @Apart.of_blank text [] gap blank empty
    rw [lex_append apart, lex_of_blank blank, List.append_nil]

/-- What stands before the last word of a text, blanks apart, has the tokens before it. -/
theorem lex_of_last {left trail : Text} {tokens : List Text} (word : Script.Identifier)
    (blank : ∀ c ∈ trail, isBlank c = true)
    (same : lex (left ++ (word.text ++ trail)) = tokens ++ [word.text]) : lex left = tokens := by
  obtain ⟨left', right, split, own, last, -⟩ := exists_of_lex_append same
  obtain ⟨gap, trail', rfl, blank', none, -⟩ := exists_of_lex_cons last
  have solid : ∀ before : Text, ∀ c, (before ++ word.text).getLast? = some c → isBlank c = false := by
    intro before c ends
    rw [List.getLast?_append_of_ne_nil _ word.nonempty] at ends
    exact word.unbroken c (List.mem_of_getLast? ends)
  have ends : left ++ word.text = left' ++ gap ++ word.text :=
    eq_of_append_blank (by simpa using split) blank (isBlank_of_lex_eq_nil none) (solid left)
      (solid (left' ++ gap))
  rw [List.append_cancel_right ends, lex_append_blank blank', own]

/-- A text without its trailing blanks. -/
theorem exists_solid (text : Text) : ∃ solid gap, text = solid ++ gap ∧ (∀ c ∈ gap, isBlank c = true) ∧
    ∀ c, solid.getLast? = some c → isBlank c = false := by
  refine ⟨text.rdropWhile isBlank, text.rtakeWhile isBlank,
    List.rdropWhile_append_rtakeWhile.symm, fun c => List.mem_rtakeWhile_imp, ?_⟩
  intro c last
  have nonempty : text.rdropWhile isBlank ≠ [] := by
    rintro empty
    simp [empty] at last
  have kept := List.rdropWhile_last_not isBlank text nonempty
  rw [List.getLast?_eq_some_getLast nonempty, Option.some.injEq] at last
  simpa [last] using kept

end ImportAudit.Text
