import ImportAudit.Text.Blanking

/-! Blanking as it is carried out: span after span, and offset after offset within a span, one character
of the text is overwritten at a time. In whatever order the spans come and however they overlap, the
outcome depends only on which offsets they cover, and an offset past the end is found if there is one. -/
namespace ImportAudit

/-- The offset lies in one of the spans. -/
def Span.Covered (spans : List Span) (offset : Nat) : Prop :=
  ∃ span ∈ spans, span.start ≤ offset ∧ offset < span.stop

theorem Span.any_covers {spans : List Span} {offset : Nat} :
    spans.any (·.covers offset) = true ↔ Covered spans offset := by
  simp [covers, Covered]

theorem Span.covered_append {spans others : List Span} {offset : Nat} :
    Covered (spans ++ others) offset ↔ Covered spans offset ∨ Covered others offset := by
  simp [Covered, or_and_right, exists_or]

namespace Text

variable {text result : Text} {spans others : List Span} {offset : Nat}

/-- The text with the character at an offset overwritten, unless that is a line feed; there is no
character past the end. -/
def overwrite? (offset : Nat) (text : Text) : Option Text :=
  text[offset]?.map fun c => if c = '\n' then text else text.set offset ' '

/-- Overwrites so many characters from an offset on, one after another. -/
def overwriteFrom? : Nat → Nat → Text → Option Text
  | 0, _, text => some text
  | count + 1, offset, text => (text.overwrite? offset).bind (overwriteFrom? count (offset + 1))

/-- Overwrites the characters of one span after another. -/
def overwriteAll? : List Span → Text → Option Text
  | [], text => some text
  | span :: spans, text =>
      (overwriteFrom? (span.stop - span.start) span.start text).bind (overwriteAll? spans)

@[simp] theorem length_blank : (text.blank spans).length = text.length := by
  simp [blank]

theorem getElem?_blank : (text.blank spans)[offset]? =
    text[offset]?.map fun c => if spans.any (·.covers offset) then blankChar c else c := by
  rw [blank, List.getElem?_mapIdx]

theorem getElem?_blank_of_covered (covered : Span.Covered spans offset) :
    (text.blank spans)[offset]? = text[offset]?.map blankChar := by
  simp only [getElem?_blank, Span.any_covers.mpr covered, if_true]

theorem getElem?_blank_of_not_covered (free : ¬ Span.Covered spans offset) :
    (text.blank spans)[offset]? = text[offset]? := by
  simp [getElem?_blank, mt Span.any_covers.mp free]

@[simp] theorem blankChar_blankChar (c : Char) : blankChar (blankChar c) = blankChar c := by
  unfold blankChar
  split <;> simp_all

/-- Only the offsets that are covered count. -/
theorem blank_congr (same : ∀ offset < text.length,
    (Span.Covered spans offset ↔ Span.Covered others offset)) : text.blank spans = text.blank others := by
  apply List.ext_getElem?
  intro offset
  by_cases inside : offset < text.length
  · by_cases covered : Span.Covered spans offset
    · rw [getElem?_blank_of_covered covered,
        getElem?_blank_of_covered ((same offset inside).mp covered)]
    · rw [getElem?_blank_of_not_covered covered,
        getElem?_blank_of_not_covered (mt (same offset inside).mpr covered)]
  · simp [getElem?_blank, List.getElem?_eq_none (Nat.le_of_not_lt inside)]

theorem blank_nil (text : Text) : text.blank [] = text := by
  apply List.ext_getElem?
  intro offset
  exact getElem?_blank_of_not_covered (by simp [Span.Covered])

/-- What is blank stays blank. -/
theorem blank_append_spans (text : Text) (spans others : List Span) :
    text.blank (spans ++ others) = (text.blank spans).blank others := by
  apply List.ext_getElem?
  intro offset
  by_cases first : Span.Covered spans offset <;> by_cases second : Span.Covered others offset
  · rw [getElem?_blank_of_covered (Span.covered_append.mpr (.inl first)),
      getElem?_blank_of_covered second, getElem?_blank_of_covered first, Option.map_map]
    exact congrArg (Option.map · _) (funext fun c => (blankChar_blankChar c).symm)
  · rw [getElem?_blank_of_covered (Span.covered_append.mpr (.inl first)),
      getElem?_blank_of_not_covered second, getElem?_blank_of_covered first]
  · rw [getElem?_blank_of_covered (Span.covered_append.mpr (.inr second)),
      getElem?_blank_of_covered second, getElem?_blank_of_not_covered first]
  · have neither := mt Span.covered_append.mp (not_or.mpr ⟨first, second⟩)
    rw [getElem?_blank_of_not_covered neither, getElem?_blank_of_not_covered second,
      getElem?_blank_of_not_covered first]

theorem blank?_congr
    (fits : (∀ span ∈ spans, Fits text span) ↔ ∀ span ∈ others, Fits text span)
    (same : ∀ offset < text.length, (Span.Covered spans offset ↔ Span.Covered others offset)) :
    text.blank? spans = text.blank? others := by
  simp only [blank?, fits, blank_congr same]

theorem blank?_append (text : Text) (spans others : List Span) :
    text.blank? (spans ++ others) = (text.blank? spans).bind (·.blank? others) := by
  have fits : (∀ span ∈ spans ++ others, Fits text span) ↔
      (∀ span ∈ spans, Fits text span) ∧ ∀ span ∈ others, Fits (text.blank spans) span := by
    simp [Fits, or_imp, forall_and]
  rw [blank?, blank?]
  by_cases first : ∀ span ∈ spans, Fits text span
  · rw [if_pos first, Option.bind_some, blank?, blank_append_spans]
    exact ite_congr (propext (fits.trans (and_iff_right first))) (fun _ => rfl) fun _ => rfl
  · rw [if_neg first, Option.bind_none]
    exact if_neg fun both => first (fits.mp both).1

section Loops

/-- One step blanks one offset. -/
theorem overwrite?_eq (offset : Nat) (text : Text) :
    text.overwrite? offset = text.blank? [⟨offset, offset + 1⟩] := by
  have covered (place : Nat) : Span.Covered [⟨offset, offset + 1⟩] place ↔ place = offset := by
    simp [Span.Covered]
    omega
  by_cases inside : offset < text.length
  · have fits : ∀ span ∈ [Span.mk offset (offset + 1)], Fits text span := by
      simpa [Fits] using Nat.succ_le_of_lt inside
    rw [overwrite?, List.getElem?_eq_getElem inside, blank?, if_pos fits, Option.map_some]
    congr 1
    apply List.ext_getElem?
    intro place
    by_cases here : place = offset
    · subst here
      rw [getElem?_blank_of_covered ((covered place).mpr rfl), List.getElem?_eq_getElem inside,
        Option.map_some, blankChar]
      split
      · exact List.getElem?_eq_getElem inside
      · exact List.getElem?_set_self inside
    · rw [getElem?_blank_of_not_covered (mt (covered place).mp here)]
      split
      · rfl
      · exact List.getElem?_set_ne (Ne.symm here)
  · have overruns : ¬ ∀ span ∈ [Span.mk offset (offset + 1)], Fits text span := by
      simpa [Fits] using Nat.lt_succ_of_le (Nat.le_of_not_lt inside)
    rw [overwrite?, List.getElem?_eq_none (Nat.le_of_not_lt inside), blank?, if_neg overruns,
      Option.map_none]

theorem overwriteFrom?_eq (count offset : Nat) (text : Text) :
    overwriteFrom? count offset text = text.blank? [⟨offset, offset + count⟩] := by
  induction count generalizing offset text with
  | zero =>
      have nothing : text.blank? [] = some text := by simp [blank?, blank_nil]
      rw [overwriteFrom?, ← nothing]
      exact blank?_congr (by simp [Fits]) (by simp [Span.Covered])
  | succ count ih =>
      calc overwriteFrom? (count + 1) offset text
        _ = (text.blank? [⟨offset, offset + 1⟩]).bind
              (·.blank? [⟨offset + 1, offset + 1 + count⟩]) := by
            rw [overwriteFrom?, overwrite?_eq]
            exact congrArg _ (funext fun text => ih (offset + 1) text)
        _ = text.blank? [⟨offset, offset + 1⟩, ⟨offset + 1, offset + 1 + count⟩] :=
            (blank?_append text _ _).symm
        _ = text.blank? [⟨offset, offset + (count + 1)⟩] := by
            apply blank?_congr
            · simp [Fits]
              omega
            · simp [Span.Covered]
              omega

/-- The loops blank whatever the spans cover. -/
theorem overwriteAll?_eq (spans : List Span) (text : Text) :
    overwriteAll? spans text = text.blank? spans := by
  induction spans generalizing text with
  | nil => simp [overwriteAll?, blank?, blank_nil]
  | cons span spans ih =>
      have first : overwriteFrom? (span.stop - span.start) span.start text = text.blank? [span] := by
        rw [overwriteFrom?_eq]
        apply blank?_congr
        · simp [Fits]
          omega
        · simp [Span.Covered]
          omega
      calc overwriteAll? (span :: spans) text
        _ = (text.blank? [span]).bind (·.blank? spans) := by
            rw [overwriteAll?, first]
            exact congrArg _ (funext ih)
        _ = text.blank? (span :: spans) := (blank?_append text [span] spans).symm

end Loops

/-- What blanking makes of a text, offset by offset. -/
structure IsBlanked (spans : List Span) (text result : Text) : Prop where
  length : result.length = text.length
  feeds : ∀ offset : Nat, text[offset]? = some '\n' → result[offset]? = some '\n'
  outside : ∀ offset : Nat, ¬ Span.Covered spans offset → result[offset]? = text[offset]?
  inside : ∀ (offset : Nat) (c : Char), Span.Covered spans offset → text[offset]? = some c → c ≠ '\n' →
    result[offset]? = some ' '

theorem isBlanked_blank : IsBlanked spans text (text.blank spans) where
  length := length_blank
  feeds offset feed := by
    by_cases covered : Span.Covered spans offset
    · rw [getElem?_blank_of_covered covered, feed]
      rfl
    · rw [getElem?_blank_of_not_covered covered, feed]
  outside offset free := getElem?_blank_of_not_covered free
  inside offset c covered here other := by
    rw [getElem?_blank_of_covered covered, here, Option.map_some, blankChar, if_neg other]

theorem IsBlanked.eq_blank (blanked : IsBlanked spans text result) : result = text.blank spans := by
  have model := @isBlanked_blank text spans
  apply List.ext_getElem?
  intro offset
  cases here : text[offset]? with
  | none =>
      have past := List.getElem?_eq_none_iff.mp here
      rw [List.getElem?_eq_none (blanked.length ▸ past), List.getElem?_eq_none (model.length ▸ past)]
  | some c =>
      by_cases covered : Span.Covered spans offset
      · by_cases feed : c = '\n'
        · subst feed
          rw [blanked.feeds offset here, model.feeds offset here]
        · rw [blanked.inside offset c covered here feed, model.inside offset c covered here feed]
      · rw [blanked.outside offset covered, model.outside offset covered]

theorem blank?_eq_some_iff : text.blank? spans = some result ↔
    (∀ span ∈ spans, Fits text span) ∧ IsBlanked spans text result := by
  unfold blank?
  split
  · rename_i fits
    rw [Option.some.injEq]
    constructor
    · rintro rfl
      exact ⟨fits, isBlanked_blank⟩
    · rintro ⟨-, blanked⟩
      exact blanked.eq_blank.symm
  · rename_i overruns
    simp [overruns]

theorem blank?_eq_none_iff : text.blank? spans = none ↔
    ∃ span ∈ spans, span.start < span.stop ∧ text.length < span.stop := by
  unfold blank?
  split
  · rename_i fits
    simpa [Fits] using fits
  · rename_i overruns
    simpa [Fits] using overruns

/-- The line feeds stay where they are, so lines keep their numbers. -/
theorem lineOf_blank (text : Text) (spans : List Span) (offset : Nat) :
    (text.blank spans).lineOf offset = text.lineOf offset := by
  have feed (c : Char) : (blankChar c == '\n') = (c == '\n') := by
    unfold blankChar
    split <;> simp_all
  have feeds : (text.blank spans).map (· == '\n') = text.map (· == '\n') := by
    apply List.ext_getElem?
    intro place
    rw [List.getElem?_map, List.getElem?_map, getElem?_blank, Option.map_map]
    congr 1
    funext c
    dsimp only [Function.comp]
    split
    · exact feed c
    · rfl
  have counted (text : Text) : (text.take offset).count '\n' =
      ((text.map (· == '\n')).take offset).countP id := by
    rw [← List.map_take, List.countP_map]
    rfl
  rw [lineOf_eq, lineOf_eq, counted, counted, feeds]

/-- Overwriting span after span fails exactly if a span that is not empty ends past the end of the text.
Otherwise it puts a space at every offset that some span covers, line feeds apart, and leaves the rest.
So neither the order of the spans nor their number matters, blanking again changes nothing, spans can be
blanked in two goes, and every offset stays on its line. -/
theorem blank?_overwrites (text : Text) (spans : List Span) :
    overwriteAll? spans text = text.blank? spans ∧
      (text.blank? spans = none ↔
        ∃ span ∈ spans, span.start < span.stop ∧ text.length < span.stop) ∧
      (∀ result, text.blank? spans = some result ↔
        (∀ span ∈ spans, span.start < span.stop → span.stop ≤ text.length) ∧
          IsBlanked spans text result) ∧
      (∀ others : List Span, (∀ span, span ∈ others ↔ span ∈ spans) →
        text.blank? others = text.blank? spans) ∧
      (text.blank? spans).bind (·.blank? spans) = text.blank? spans ∧
      (∀ others, text.blank? (spans ++ others) = (text.blank? spans).bind (·.blank? others)) ∧
      ∀ result, text.blank? spans = some result →
        ∀ offset, result.lineOf offset = text.lineOf offset := by
  have alike {others : List Span} (members : ∀ span, span ∈ others ↔ span ∈ spans) :
      text.blank? others = text.blank? spans := by
    apply blank?_congr
    · simp only [members]
    · simp only [Span.Covered, members, implies_true]
  refine ⟨overwriteAll?_eq spans text, blank?_eq_none_iff, fun result => blank?_eq_some_iff,
    fun others => alike, ?_, blank?_append text spans, ?_⟩
  · rw [← blank?_append]
    exact alike (by simp)
  · intro result blanked offset
    rw [(blank?_eq_some_iff.mp blanked).2.eq_blank, lineOf_blank]

end Text
end ImportAudit
