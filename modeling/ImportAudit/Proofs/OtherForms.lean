import ImportAudit.Proofs.ImportStatement

/-! The other forms of mentions occur nowhere in a rendered import statement. Each of them needs a
quote, a star, a brace or a parenthesis right behind certain words, and the statement has other words
there. -/
namespace ImportAudit.Script
open Pattern Text

/-- A pattern that starts with a word matches only at the first character of the word. -/
theorem heads_of_wordChars {α : Type} {word : Text} {next : Unit → Pattern α} (before : Text) (c : Char)
    (after : Text) (matched : (wordChars word >>= next).ways (.between before (c :: after)) ≠ []) :
    word.head?.all (· == c) = true := by
  obtain ⟨way, member⟩ := List.exists_mem_of_ne_nil _ matched
  obtain ⟨⟨⟩, place, started, -⟩ := mem_ways_bind.mp member
  obtain ⟨-, rest, same, -⟩ := mem_ways_wordChars.mp started
  cases word with
  | nil => rfl
  | cons d word =>
      obtain ⟨rfl, -⟩ : c = d ∧ _ := by simpa using same
      simp

/-- A pattern that starts with a name matches nowhere where no name can start. -/
theorem wordless_quiet {α : Type} {word : Text} {next : Unit → Pattern α} {before stretch rest : Text}
    (nonempty : word ≠ []) (proper : ∀ c ∈ word, isIdentifier c = true)
    (wordless : ∀ c ∈ stretch, isIdentifier c = false) :
    (wordChars word >>= next).Quiet before stretch rest := by
  refine Quiet.of_heads heads_of_wordChars fun c member matched => ?_
  obtain ⟨d, word, rfl⟩ := List.exists_cons_of_ne_nil nonempty
  obtain rfl : d = c := by simpa using matched
  have named := proper d List.mem_cons_self
  simp [wordless d member] at named

theorem lineEnd_wordless : ∀ c ∈ [';', '\n'], isIdentifier c = false := by
  have marks : isIdentifier ';' = false ∧ isIdentifier '\n' = false := by decide
  simpa using marks

theorem lineEnd_quiet {α : Type} {word : Text} {next : Unit → Pattern α} {before rest : Text}
    (nonempty : word ≠ []) (proper : ∀ c ∈ word, isIdentifier c = true) :
    (wordChars word >>= next).Quiet before [';', '\n'] rest :=
  wordless_quiet nonempty proper lineEnd_wordless

theorem mem_word_append {word blanks : Text} (proper : ∀ c ∈ word, isIdentifier c = true)
    (blank : ∀ c ∈ blanks, isBlank c = true) :
    ∀ c ∈ word ++ blanks, isBlank c = true ∨ isIdentifier c = true := fun c member =>
  (List.mem_append.mp member).elim (fun inside => .inr (proper c inside))
    (fun inside => .inl (blank c inside))

/-- A line end stands between two quotes only if it is not part of a quoted text. -/
theorem lineEnd_not_quoted {rest inner others : Text} {quote : Char} (quoted : isQuote quote = true)
    (ends : ∀ c, rest.head? = some c → c = '\n') (all : ∀ c ∈ inner, isInner c = true) :
    ';' :: rest ≠ inner ++ quote :: others := by
  intro same
  match inner with
  | [] =>
      obtain ⟨rfl, -⟩ := List.cons_eq_cons.mp same
      exact absurd quoted (by decide)
  | [c] =>
      obtain ⟨-, rfl⟩ := List.cons_eq_cons.mp same
      obtain rfl := ends quote rfl
      exact absurd quoted (by decide)
  | c :: d :: inner =>
      obtain ⟨-, rfl⟩ := List.cons_eq_cons.mp same
      obtain rfl := ends d rfl
      exact absurd (all '\n' (by simp)) (by decide)

theorem mem_ways_effectImport {before after : Text} {found : Span × Cursor}
    (way : found ∈ effectImport.ways (.between before after)) :
    ∃ blanks quote inner rest, (∀ c ∈ blanks, isBlank c = true) ∧ isQuote quote = true ∧
      (∀ c ∈ inner, isInner c = true) ∧
      after = Identifier.importWord.text ++ blanks ++ quote :: (inner ++ quote :: rest) ∧
      found.2 = .between (before ++ (Identifier.importWord.text ++ (blanks ++
        quote :: (inner ++ [quote])))) rest := by
  obtain ⟨⟨⟩, place, word, way⟩ := mem_ways_bind.mp way
  obtain ⟨-, rest, rfl, ⟨⟩⟩ := mem_ways_wordChars.mp word
  obtain ⟨⟨⟩, place, skipped, way⟩ := mem_ways_bind.mp way
  obtain ⟨blanks, rest, rfl, blank, ⟨⟩⟩ := mem_ways_run skipped
  obtain ⟨quote, inner, rest, quoted, all, rfl, moved⟩ := mem_ways_specifier way
  refine ⟨blanks, quote, inner, rest, blank, quoted, all, (List.append_assoc _ _ _).symm, ?_⟩
  rw [moved, List.append_assoc, List.append_assoc]
  rfl

/-- Behind the last quote of a statement a line ends before another quote. -/
theorem effectImport_specifier (named : Specifier) (quote : Quote) (before : Text) {rest : Text}
    (ends : ∀ c, rest.head? = some c → c = '\n') :
    effectImport.Quiet before (named.text ++ [quote.char]) (';' :: rest) := by
  refine Quiet.of_places fun left right split => List.eq_nil_iff_forall_not_mem.mpr fun way member => ?_
  obtain ⟨blanks, quote', inner, others, blank, quoted, all, same, -⟩ := mem_ways_effectImport member
  have plain : ∀ c ∈ right, isQuote c = false := fun c inside =>
    isQuote_of_isInner (named.isInner_of_mem c (split ▸ List.mem_append_right left inside))
  obtain ⟨-, -, tail⟩ := append_cons_inj same plain
    (fun c inside => isQuote_of_clause ((mem_word_append Identifier.importWord.proper blank c
      inside).imp id isTokenChar_of_isIdentifier)) quote.isQuote_char quoted
  exact lineEnd_not_quoted quoted ends all tail

theorem mem_ways_moduleCall {word : String} {before after : Text} {found : Span × Cursor}
    (way : found ∈ (moduleCall word).ways (.between before after)) :
    ∃ blanks rest, (∀ c ∈ blanks, isBlank c = true) ∧
      after = word.toList ++ blanks ++ '(' :: rest := by
  obtain ⟨⟨⟩, place, started, way⟩ := mem_ways_bind.mp way
  obtain ⟨-, rest, rfl, ⟨⟩⟩ := mem_ways_wordChars.mp started
  obtain ⟨⟨⟩, place, skipped, way⟩ := mem_ways_bind.mp way
  obtain ⟨blanks, rest, rfl, blank, ⟨⟩⟩ := mem_ways_run skipped
  obtain ⟨⟨⟩, place, opened, -⟩ := mem_ways_bind.mp way
  obtain ⟨c, rest, rfl, same, -⟩ := mem_ways_one.mp opened
  obtain rfl : c = '(' := by simpa using same
  exact ⟨blanks, rest, blank, by simp⟩

theorem mem_ways_reexport {before after : Text} {found : Span × Cursor}
    (way : found ∈ reexport.ways (.between before after)) :
    ∃ blanks typeOnly modifier mark rest, (∀ c ∈ blanks, isBlank c = true) ∧
      ModifierText typeOnly modifier ∧ (mark = '*' ∨ mark = '{') ∧
      after = Identifier.exportWord.text ++ (blanks ++ modifier) ++ mark :: rest := by
  obtain ⟨⟨⟩, place, word, way⟩ := mem_ways_bind.mp way
  obtain ⟨-, rest, rfl, ⟨⟩⟩ := mem_ways_wordChars.mp word
  obtain ⟨⟨⟩, place, skipped, way⟩ := mem_ways_bind.mp way
  obtain ⟨blanks, rest, rfl, blank, ⟨⟩⟩ := mem_ways_run skipped
  obtain ⟨⟨⟩, place, optional, way⟩ := mem_ways_bind.mp way
  obtain ⟨typeOnly, modifier, rest, written, rfl, ⟨⟩⟩ := mem_ways_typeModifier.mp optional
  obtain ⟨⟨⟩, place, opened, -⟩ := mem_ways_bind.mp way
  have marked : ∃ mark others, (mark = '*' ∨ mark = '{') ∧ rest = mark :: others := by
    rw [ways_either, List.mem_append] at opened
    rcases opened with star | brace
    · obtain ⟨⟨⟩, place, first, -⟩ := mem_ways_bind.mp star
      obtain ⟨c, others, rfl, same, -⟩ := mem_ways_one.mp first
      exact ⟨c, others, .inl (by simpa using same), rfl⟩
    · obtain ⟨span, place, inner, -⟩ := mem_ways_bind.mp brace
      obtain ⟨⟨⟩, place, first, -⟩ := mem_ways_bind.mp inner
      obtain ⟨c, others, rfl, same, -⟩ := mem_ways_one.mp first
      exact ⟨c, others, .inr (by simpa using same), rfl⟩
  obtain ⟨mark, others, either, rfl⟩ := marked
  refine ⟨blanks, typeOnly, modifier, mark, others, blank, written, either, ?_⟩
  rw [List.append_assoc, List.append_assoc]
  rfl

/-- What a call has behind its word, or a statement in its place. -/
def isCallMark (c : Char) : Bool := isQuote c || c == '('

theorem isCallMark_iff {c : Char} : isCallMark c = true ↔ c = '\'' ∨ c = '"' ∨ c = '(' := by
  simp [isCallMark, isQuote_iff, or_assoc]

theorem isCallMark_of_clause {c : Char} (part : isBlank c = true ∨ isTokenChar c = true) :
    isCallMark c = false := by
  refine Bool.eq_false_iff.mpr fun marked => ?_
  rcases isCallMark_iff.mp marked with rfl | rfl | rfl <;> exact absurd part (by decide)

theorem Specifier.isCallMark_of_mem (named : Specifier) : ∀ c ∈ named.text, isCallMark c = false := by
  intro c member
  refine Bool.eq_false_iff.mpr fun marked => ?_
  rcases isCallMark_iff.mp marked with rfl | rfl | rfl <;>
    exact absurd (named.proper _ member) (by decide)

namespace Layout

variable {statement : ImportStatement} (layout : Layout statement)

def head : Text := layout.opening ++ (layout.body ++ layout.closing)

theorem mem_modifier {typeOnly : Bool} {modifier : Text} (written : ModifierText typeOnly modifier) :
    ∀ c ∈ modifier, isBlank c = true ∨ isIdentifier c = true := by
  cases written with
  | none => simp
  | type separated =>
      intro c member
      rcases List.mem_append.mp member with word | blank
      · exact .inr (Identifier.typeWord.proper c word)
      · exact .inl (separated.2 c blank)

theorem mem_opening : ∀ c ∈ layout.opening, isBlank c = true ∨ isIdentifier c = true := by
  intro c member
  simp only [opening, List.mem_append] at member
  rcases member with word | blank | modifier
  · exact .inr (Identifier.importWord.proper c word)
  · exact .inl (layout.lead_isGap.2 c blank)
  · exact mem_modifier layout.modifier_text c modifier

theorem mem_closing : ∀ c ∈ layout.closing, isBlank c = true ∨ isIdentifier c = true := by
  intro c member
  simp only [closing, List.mem_append] at member
  rcases member with blank | word | blank
  · exact .inl (layout.beforeFrom_isGap.2 c blank)
  · exact .inr (Identifier.fromWord.proper c word)
  · exact .inl (layout.afterFrom_isGap.2 c blank)

theorem mem_head : ∀ c ∈ layout.head, isBlank c = true ∨ isTokenChar c = true := by
  intro c member
  simp only [head, List.mem_append] at member
  rcases member with early | inside | late
  · exact (layout.mem_opening c early).imp id isTokenChar_of_isIdentifier
  · exact layout.mem_body c inside
  · exact (layout.mem_closing c late).imp id isTokenChar_of_isIdentifier

theorem core_end_eq : layout.core ++ [';', '\n'] =
    layout.head ++ [statement.quote.char] ++
      (statement.specifier.text ++ [statement.quote.char] ++ [';', '\n']) := by
  simp [core, head, ImportStatement.target]

/-- An import for effect would need `import` right before the first quote, where `from` is. -/
theorem effectImport_head (before rest : Text) :
    effectImport.Quiet before (layout.head ++ [statement.quote.char]) rest := by
  refine Quiet.of_places fun left right split => List.eq_nil_iff_forall_not_mem.mpr fun way member => ?_
  obtain ⟨blanks, quote, inner, others, blank, quoted, -, same, -⟩ := mem_ways_effectImport member
  have plain : ∀ c ∈ right, isQuote c = false := fun c inside =>
    isQuote_of_clause (layout.mem_head c (split ▸ List.mem_append_right left inside))
  obtain ⟨rfl, -⟩ := append_cons_inj same plain
    (fun c inside => isQuote_of_clause ((mem_word_append Identifier.importWord.proper blank c
      inside).imp id isTokenChar_of_isIdentifier))
    statement.quote.isQuote_char quoted
  obtain ⟨-, ends⟩ : _ = layout.opening ++ layout.body ++ layout.beforeFrom ++
      Identifier.fromWord.text ∧ _ :=
    Identifier.importWord.isToken.eq_of_append_blank Identifier.fromWord.isToken
      (by simpa [head, closing] using split.symm) blank layout.afterFrom_isGap.2
  exact absurd ends (by decide)

theorem effectImport_quiet (before rest : Text) :
    effectImport.Quiet before (layout.core ++ [';', '\n']) rest := by
  rw [core_end_eq]
  exact (layout.effectImport_head before _).append
    ((effectImport_specifier _ _ _ (by simp)).append
      (lineEnd_quiet Identifier.importWord.nonempty Identifier.importWord.proper))

theorem moduleCall_quiet {word : String} (before rest : Text) (nonempty : word.toList ≠ [])
    (proper : ∀ c ∈ word.toList, isIdentifier c = true) :
    (moduleCall word).Quiet before (layout.core ++ [';', '\n']) rest := by
  have needs : ∀ before after, (moduleCall word).ways (.between before after) ≠ [] →
      ∃ plain mark rest, after = plain ++ mark :: rest ∧ (∀ c ∈ plain, isCallMark c = false) ∧
        isCallMark mark = true ∧ mark ≠ statement.quote.char := by
    intro before after matched
    obtain ⟨way, member⟩ := List.exists_mem_of_ne_nil _ matched
    obtain ⟨blanks, others, blank, same⟩ := mem_ways_moduleCall member
    refine ⟨_, '(', others, same, fun c inside => ?_, rfl, ?_⟩
    · exact isCallMark_of_clause
        ((mem_word_append proper blank c inside).imp id isTokenChar_of_isIdentifier)
    · cases statement.quote <;> decide
  have marked : isCallMark statement.quote.char = true := by cases statement.quote <;> decide
  rw [core_end_eq]
  exact (Quiet.of_mark needs (fun c member => isCallMark_of_clause (layout.mem_head c member))
    marked).append
    ((Quiet.of_mark needs statement.specifier.isCallMark_of_mem marked).append
      (lineEnd_quiet nonempty proper))

end Layout

/-- What a re-export has behind its words, or a statement in its place. -/
def isExportMark (c : Char) : Bool := isQuote c || c == '*' || c == '{'

theorem isExportMark_iff {c : Char} :
    isExportMark c = true ↔ c = '\'' ∨ c = '"' ∨ c = '*' ∨ c = '{' := by
  simp [isExportMark, isQuote_iff, or_assoc]

theorem isExportMark_of_plain {c : Char}
    (plain : isBlank c = true ∨ isIdentifier c = true ∨ c = ',' ∨ c = '}') :
    isExportMark c = false := by
  refine Bool.eq_false_iff.mpr fun marked => ?_
  rcases isExportMark_iff.mp marked with rfl | rfl | rfl | rfl <;> exact absurd plain (by decide)

theorem Specifier.isExportMark_of_mem (named : Specifier) :
    ∀ c ∈ named.text, isExportMark c = false := by
  intro c member
  refine Bool.eq_false_iff.mpr fun marked => ?_
  rcases isExportMark_iff.mp marked with rfl | rfl | rfl | rfl <;>
    exact absurd (named.proper _ member) (by decide)

theorem importWord_ne (left : Text) :
    Identifier.importWord.text ≠ left ++ Identifier.exportWord.text := by
  intro same
  have empty : left = [] := by
    have lengths := congrArg List.length same
    have size : Identifier.importWord.text.length = 6 ∧ Identifier.exportWord.text.length = 6 := by
      decide
    rw [List.length_append] at lengths
    exact List.eq_nil_of_length_eq_zero (by omega)
  exact absurd (empty ▸ same) (by decide)

/-- The words before the first star or brace of a statement are not those of a re-export. -/
theorem import_ne_export {lead modifier left blanks modifier' : Text} {typeOnly typeOnly' : Bool}
    (separated : IsGap lead) (written : ModifierText typeOnly modifier)
    (blank : ∀ c ∈ blanks, isBlank c = true) (written' : ModifierText typeOnly' modifier') :
    Identifier.importWord.text ++ (lead ++ modifier) ≠
      left ++ (Identifier.exportWord.text ++ (blanks ++ modifier')) := by
  intro same
  have importToken := Identifier.importWord.isToken
  have exportToken := Identifier.exportWord.isToken
  have typeToken := Identifier.typeWord.isToken
  cases written with
  | none =>
    cases written' with
    | none =>
        obtain ⟨words, -⟩ : [] ++ Identifier.importWord.text = left ++ Identifier.exportWord.text ∧ _ :=
          importToken.eq_of_append_blank exportToken (by simpa using same) separated.2 blank
        exact importWord_ne left words
    | type separated' =>
        obtain ⟨-, ends⟩ : [] ++ Identifier.importWord.text =
            left ++ Identifier.exportWord.text ++ blanks ++ Identifier.typeWord.text ∧ _ :=
          importToken.eq_of_append_blank typeToken (by simpa using same) separated.2 separated'.2
        exact absurd ends (by decide)
  | type gap =>
    cases written' with
    | none =>
        obtain ⟨-, ends⟩ : Identifier.importWord.text ++ lead ++ Identifier.typeWord.text =
            left ++ Identifier.exportWord.text ∧ _ :=
          typeToken.eq_of_append_blank exportToken (by simpa using same) gap.2 blank
        exact absurd ends (by decide)
    | type separated' =>
        obtain ⟨words, -⟩ : Identifier.importWord.text ++ lead ++ Identifier.typeWord.text =
            left ++ Identifier.exportWord.text ++ blanks ++ Identifier.typeWord.text ∧ _ :=
          typeToken.eq_of_append_blank typeToken (by simpa using same) gap.2 separated'.2
        have shorter := List.append_cancel_right words
        obtain ⟨words, -⟩ : [] ++ Identifier.importWord.text = left ++ Identifier.exportWord.text ∧ _ :=
          importToken.eq_of_append_blank exportToken (by simpa using shorter) separated.2 blank
        exact importWord_ne left words

theorem comma_ne_export {before gap left blanks modifier : Text} {typeOnly : Bool}
    (separated : IsGap gap) (blank : ∀ c ∈ blanks, isBlank c = true)
    (written : ModifierText typeOnly modifier) :
    before ++ ([','] ++ gap) ≠ left ++ (Identifier.exportWord.text ++ (blanks ++ modifier)) := by
  intro same
  have comma : IsToken [','] := isToken_singleton (by decide)
  cases written with
  | none =>
      obtain ⟨-, ends⟩ := comma.eq_of_append_blank Identifier.exportWord.isToken
        (by simpa using same) separated.2 blank
      exact absurd ends (by decide)
  | type separated' =>
      obtain ⟨-, ends⟩ : _ = left ++ Identifier.exportWord.text ++ blanks ++
          Identifier.typeWord.text ∧ _ := comma.eq_of_append_blank Identifier.typeWord.isToken
        (by simpa using same) separated.2 separated'.2
      exact absurd ends (by decide)

/-- A selection starts with its only star or opening brace. -/
theorem Selection.marked {selection : Selection} {body : Text}
    (spaced : Spaced selection.tokens body) :
    ∃ mark tail, body = mark :: tail ∧ isExportMark mark = true ∧
      ∀ c ∈ tail, isExportMark c = false := by
  rcases Selection.shape spaced with
    ⟨gap, gap', name, separated, separated', rfl, rfl⟩ | ⟨items, trailing, inner, listed, rfl, rfl⟩
  · refine ⟨'*', _, rfl, rfl, fun c member => isExportMark_of_plain ?_⟩
    simp only [List.mem_append] at member
    rcases member with blank | word | blank | inside
    · exact .inl (separated.2 c blank)
    · exact .inr (.inl (Identifier.asWord.proper c word))
    · exact .inl (separated'.2 c blank)
    · exact .inr (.inl (name.proper c inside))
  · refine ⟨'{', _, rfl, rfl, fun c member => isExportMark_of_plain ?_⟩
    simp only [List.mem_append, List.mem_singleton] at member
    rcases member with inside | rfl
    · have plain := mem_of_list listed inside
      tauto
    · exact .inr (.inr (.inr rfl))

/-- A clause has no mark, or one, which comes first or behind a comma. -/
theorem ImportClause.marked {clause : ImportClause} {body : Text} (spaced : Spaced clause.tokens body) :
    (∀ c ∈ body, isExportMark c = false) ∨
    ∃ start mark tail, body = start ++ mark :: tail ∧ isExportMark mark = true ∧
      (∀ c ∈ start, isExportMark c = false) ∧ (∀ c ∈ tail, isExportMark c = false) ∧
      (start = [] ∨ ∃ before gap, IsGap gap ∧ start = before ++ ([','] ++ gap)) := by
  cases clause with
  | default name =>
      obtain rfl : body = name.text := spaced.eq_of_single
      exact .inl fun c member => isExportMark_of_plain (.inr (.inl (name.proper c member)))
  | selected selection =>
      obtain ⟨mark, tail, rfl, marked, free⟩ := Selection.marked spaced
      exact .inr ⟨[], mark, tail, rfl, marked, by simp, free, .inl rfl⟩
  | both name selection =>
      obtain ⟨gap, rest, rfl, separated, later⟩ := spaced.uncons (by simp)
      obtain ⟨gap', body, rfl, separated', later⟩ := later.uncons selection.tokens_ne_nil
      obtain ⟨mark, tail, rfl, marked, free⟩ := Selection.marked later
      refine .inr ⟨name.text ++ gap ++ ([','] ++ gap'), mark, tail, by simp, marked, ?_, free,
        .inr ⟨_, gap', separated', rfl⟩⟩
      intro c member
      simp only [List.mem_append, List.mem_singleton] at member
      refine isExportMark_of_plain ?_
      rcases member with (inside | blank) | rfl | blank
      · exact .inr (.inl (name.proper c inside))
      · exact .inl (separated.2 c blank)
      · exact .inr (.inr (.inl rfl))
      · exact .inl (separated'.2 c blank)

theorem exportWords_unmarked {blanks modifier : Text} {typeOnly : Bool}
    (blank : ∀ c ∈ blanks, isBlank c = true) (written : ModifierText typeOnly modifier) :
    ∀ c ∈ Identifier.exportWord.text ++ (blanks ++ modifier), isExportMark c = false := by
  intro c member
  simp only [List.mem_append] at member
  refine isExportMark_of_plain ?_
  rcases member with word | space | inside
  · exact .inr (.inl (Identifier.exportWord.proper c word))
  · exact .inl (blank c space)
  · exact (Layout.mem_modifier written c inside).imp id .inl

namespace Layout

variable {statement : ImportStatement} (layout : Layout statement)

/-- Up to a quote nothing is re-exported without a mark before it. -/
theorem reexport_unmarked {stretch : Text} (before rest : Text) (quote : Quote)
    (free : ∀ c ∈ stretch, isExportMark c = false) :
    reexport.Quiet before (stretch ++ [quote.char]) rest := by
  have marked : isExportMark quote.char = true := by cases quote <;> decide
  refine Quiet.of_mark (fun before after matched => ?_) free marked
  obtain ⟨way, member⟩ := List.exists_mem_of_ne_nil _ matched
  obtain ⟨blanks, typeOnly, modifier, mark, rest, blank, written, marks, same⟩ :=
    mem_ways_reexport member
  refine ⟨_, mark, rest, same, exportWords_unmarked blank written, ?_, ?_⟩
  · rcases marks with rfl | rfl <;> rfl
  · rcases marks with rfl | rfl <;> cases quote <;> decide

/-- At the first mark of a statement nothing is re-exported. -/
theorem reexport_marked {start : Text} {mark : Char} (before rest : Text)
    (free : ∀ c ∈ start, isExportMark c = false) (marked : isExportMark mark = true)
    (shape : start = [] ∨ ∃ before gap, IsGap gap ∧ start = before ++ ([','] ++ gap)) :
    reexport.Quiet before (layout.opening ++ start ++ [mark]) rest := by
  refine Quiet.of_places fun left right split => List.eq_nil_iff_forall_not_mem.mpr fun way member => ?_
  obtain ⟨blanks, typeOnly, modifier, mark', others, blank, written, marks, same⟩ :=
    mem_ways_reexport member
  have marked' : isExportMark mark' = true := by rcases marks with rfl | rfl <;> rfl
  have plain : ∀ c ∈ right, isExportMark c = false := by
    intro c inside
    have whole : c ∈ layout.opening ++ start := split ▸ List.mem_append_right left inside
    rcases List.mem_append.mp whole with early | late
    · exact isExportMark_of_plain ((layout.mem_opening c early).imp id .inl)
    · exact free c late
  obtain ⟨rfl, -⟩ := append_cons_inj same plain (exportWords_unmarked blank written) marked marked'
  rcases shape with rfl | ⟨earlier, gap, separated, rfl⟩
  · exact import_ne_export layout.lead_isGap layout.modifier_text blank written
      (by simpa [opening] using split)
  · have whole : layout.opening ++ earlier ++ ([','] ++ gap) =
        left ++ (Identifier.exportWord.text ++ (blanks ++ modifier)) := by simpa using split
    exact comma_ne_export separated blank written whole

theorem reexport_quiet (before rest : Text) :
    reexport.Quiet before (layout.core ++ [';', '\n']) rest := by
  have late : ∀ c ∈ layout.closing, isExportMark c = false := fun c member =>
    isExportMark_of_plain ((layout.mem_closing c member).imp id .inl)
  have ending : ∀ before rest, reexport.Quiet before
      (statement.specifier.text ++ [statement.quote.char] ++ [';', '\n']) rest := fun before rest =>
    (reexport_unmarked before _ statement.quote statement.specifier.isExportMark_of_mem).append
      (lineEnd_quiet Identifier.exportWord.nonempty Identifier.exportWord.proper)
  rw [core_end_eq]
  -- A re-export needs a star or a brace right behind its words, and a statement has at most one.
  rcases ImportClause.marked layout.body_spaced with
    free | ⟨start, mark, tail, same, marked, before', after', shape⟩
  · refine (reexport_unmarked before _ statement.quote fun c member => ?_).append (ending _ rest)
    simp only [head, List.mem_append] at member
    rcases member with early | inside | closing
    · exact isExportMark_of_plain ((layout.mem_opening c early).imp id .inl)
    · exact free c inside
    · exact late c closing
  · have parts : layout.head ++ [statement.quote.char] =
        layout.opening ++ start ++ [mark] ++ (tail ++ layout.closing ++ [statement.quote.char]) := by
      simp [head, same]
    rw [parts]
    refine Quiet.append (Quiet.append (layout.reexport_marked before _ before' marked shape)
      (reexport_unmarked _ _ statement.quote fun c member => ?_)) (ending _ rest)
    exact (List.mem_append.mp member).elim (after' c) (late c)

end Layout

end ImportAudit.Script
