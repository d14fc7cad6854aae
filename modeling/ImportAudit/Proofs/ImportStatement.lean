import ImportAudit.Source
import ImportAudit.Proofs.ImportClause

/-! Import statements. A statement is given by its parts and written as tokens with gaps between them
and a line end after it. The search for imports with a clause finds each statement of such a text and
nothing else, and the other forms of mentions occur nowhere in it. -/
namespace ImportAudit.Script
open Pattern Text

namespace Identifier

def importWord : Identifier := ⟨"import".toList, by decide, List.all_eq_true.mp (by decide)⟩

def exportWord : Identifier := ⟨"export".toList, by decide, List.all_eq_true.mp (by decide)⟩

def defaultWord : Identifier := ⟨"default".toList, by decide, List.all_eq_true.mp (by decide)⟩

def fromWord : Identifier := ⟨Script.fromWord, by decide, List.all_eq_true.mp (by decide)⟩

end Identifier

/-- A module as a statement names it. -/
structure Specifier where
  text : Text
  nonempty : text ≠ []
  proper : ∀ c ∈ text, isWord c = true ∨ c = '.' ∨ c = '/' ∨ c = '-'

inductive Quote
  | single
  | double

def Quote.char : Quote → Char
  | single => '\''
  | double => '"'

structure ImportStatement where
  typeOnly : Bool
  clause : ImportClause
  specifier : Specifier
  quote : Quote

namespace ImportStatement

variable (statement : ImportStatement)

def target : Text :=
  statement.quote.char :: (statement.specifier.text ++ [statement.quote.char])

def tokens : List Text :=
  Identifier.importWord.text :: modifierTokens statement.typeOnly ++ statement.clause.tokens ++
    [Identifier.fromWord.text, statement.target]

/-- The text is the statement, with some gap between each two of its tokens. -/
def Renders (text : Text) : Prop :=
  ∃ body, Spaced statement.tokens body ∧ text = body ++ [';', '\n']

end ImportStatement

/-- The stretches of text that a rendering of a statement has apart from its fixed words. -/
structure Layout (statement : ImportStatement) where
  lead : Text
  modifier : Text
  body : Text
  beforeFrom : Text
  afterFrom : Text
  lead_isGap : IsGap lead
  modifier_text : ModifierText statement.typeOnly modifier
  body_spaced : Spaced statement.clause.tokens body
  beforeFrom_isGap : IsGap beforeFrom
  afterFrom_isGap : IsGap afterFrom

namespace Layout

variable {statement : ImportStatement} (layout : Layout statement)

def opening : Text := Identifier.importWord.text ++ (layout.lead ++ layout.modifier)

def closing : Text := layout.beforeFrom ++ (Identifier.fromWord.text ++ layout.afterFrom)

def core : Text := layout.opening ++ (layout.body ++ (layout.closing ++ statement.target))

end Layout

theorem ImportClause.tokens_ne_nil (clause : ImportClause) : clause.tokens ≠ [] := by
  cases clause with
  | default => simp [tokens]
  | selected selection => exact selection.tokens_ne_nil
  | both => simp [tokens]

theorem ImportStatement.Renders.layout {statement : ImportStatement} {text : Text}
    (rendered : statement.Renders text) :
    ∃ layout : Layout statement, text = layout.core ++ [';', '\n'] := by
  obtain ⟨typeOnly, clause, specifier, quote⟩ := statement
  obtain ⟨body, spaced, rfl⟩ := rendered
  simp only [tokens, List.append_assoc, List.cons_append] at spaced
  obtain ⟨lead, rest, rfl, leadGap, spaced⟩ := spaced.uncons (by simp [clause.tokens_ne_nil])
  obtain ⟨modifier, rest, rfl, modified, spaced⟩ :=
    ModifierText.of_spaced spaced (by simp [clause.tokens_ne_nil])
  obtain ⟨body, beforeFrom, rest, rfl, clauseSpaced, beforeGap, spaced⟩ :=
    spaced.append clause.tokens_ne_nil (by simp)
  obtain ⟨afterFrom, rest, rfl, afterGap, spaced⟩ := spaced.uncons (by simp)
  refine ⟨⟨lead, modifier, body, beforeFrom, afterFrom, leadGap, modified, clauseSpaced, beforeGap,
    afterGap⟩, ?_⟩
  simp [Layout.core, Layout.opening, Layout.closing, spaced.eq_of_single]

def isQuote (c : Char) : Bool := c == '\'' || c == '"'

theorem Quote.isQuote_char (quote : Quote) : isQuote quote.char = true := by
  cases quote <;> rfl

theorem isQuote_iff {c : Char} : isQuote c = true ↔ c = '\'' ∨ c = '"' := by
  simp [isQuote]

theorem isQuote_of_clause {c : Char} (part : isBlank c = true ∨ isTokenChar c = true) :
    isQuote c = false := by
  refine Bool.eq_false_iff.mpr fun quoted => ?_
  rcases isQuote_iff.mp quoted with rfl | rfl <;> exact absurd part (by decide)

def isInner (c : Char) : Bool := c != '\'' && c != '"' && c != '\n'

theorem isQuote_of_isInner {c : Char} (inner : isInner c = true) : isQuote c = false := by
  refine Bool.eq_false_iff.mpr fun quoted => ?_
  rcases isQuote_iff.mp quoted with rfl | rfl <;> exact absurd inner (by decide)

theorem Specifier.isInner_of_mem (named : Specifier) : ∀ c ∈ named.text, isInner c = true := by
  intro c member
  have plain : c ≠ '\'' ∧ c ≠ '"' ∧ c ≠ '\n' := by
    refine ⟨?_, ?_, ?_⟩ <;> (rintro rfl; exact absurd (named.proper _ member) (by decide))
  simp [isInner, plain]

theorem specifier_first (before : Text) (named : Specifier) (quote : Quote) (rest : Text) :
    specifier.First
      (.between before (quote.char :: (named.text ++ quote.char :: rest)))
      ⟨(before ++ [quote.char]).length, (before ++ [quote.char] ++ named.text).length⟩
      (.between (before ++ [quote.char] ++ named.text ++ [quote.char]) rest) := by
  have stop : ∀ c, (quote.char :: rest).head? = some c → isInner c = false := by
    cases quote <;> simp [Quote.char, isInner]
  have own : (quoted quote.char).First
      (.between before (quote.char :: (named.text ++ quote.char :: rest)))
      ⟨(before ++ [quote.char]).length, (before ++ [quote.char] ++ named.text).length⟩
      (.between (before ++ [quote.char] ++ named.text ++ [quote.char]) rest) :=
    (First.char before quote.char _).bind
      ((First.run1 _ named.nonempty named.isInner_of_mem stop).spanOf.bind
        ((First.char _ quote.char rest).bind (First.pure _)))
  cases quote with
  | single => exact own.left
  | double => exact First.right (by simp [quoted, char, Quote.char]) own

/-- A match of a specifier is a quoted text, and its value is where that text is. -/
theorem mem_ways_specifier_span {before after : Text} {found : Span × Cursor}
    (way : found ∈ specifier.ways (.between before after)) :
    ∃ quote inner rest, isQuote quote = true ∧ (∀ c ∈ inner, isInner c = true) ∧
      after = quote :: (inner ++ quote :: rest) ∧
      found = (⟨(before ++ [quote]).length, (before ++ [quote] ++ inner).length⟩,
        .between (before ++ quote :: (inner ++ [quote])) rest) := by
  have own : ∀ quote, found ∈ (quoted quote).ways (.between before after) →
      ∃ inner rest, (∀ c ∈ inner, isInner c = true) ∧ after = quote :: (inner ++ quote :: rest) ∧
        found = (⟨(before ++ [quote]).length, (before ++ [quote] ++ inner).length⟩,
          .between (before ++ quote :: (inner ++ [quote])) rest) := by
    intro quote way
    obtain ⟨⟨⟩, place, opened, way⟩ := mem_ways_bind.mp way
    obtain ⟨c, rest, rfl, same, ⟨⟩⟩ := mem_ways_one.mp opened
    obtain ⟨span, place, middle, way⟩ := mem_ways_bind.mp way
    rw [ways_spanOf, List.mem_map] at middle
    obtain ⟨⟨⟨⟩, place⟩, middle, ⟨⟩⟩ := middle
    obtain ⟨inner, rest, rfl, -, all, ⟨⟩⟩ := mem_ways_run1 middle
    obtain ⟨⟨⟩, place, closed, last⟩ := mem_ways_bind.mp way
    obtain ⟨d, rest, rfl, same', ⟨⟩⟩ := mem_ways_one.mp closed
    obtain rfl : c = quote := by simpa using same
    obtain rfl : d = c := by simpa using same'
    obtain rfl := List.mem_singleton.mp last
    exact ⟨inner, rest, all, rfl, by simp⟩
  unfold specifier at way
  rw [ways_either, List.mem_append] at way
  rcases way with way | way
  · obtain ⟨inner, rest, all, rfl, moved⟩ := own _ way
    exact ⟨_, inner, rest, rfl, all, rfl, moved⟩
  · obtain ⟨inner, rest, all, rfl, moved⟩ := own _ way
    exact ⟨_, inner, rest, rfl, all, rfl, moved⟩

theorem mem_ways_specifier {before after : Text} {found : Span × Cursor}
    (way : found ∈ specifier.ways (.between before after)) :
    ∃ quote inner rest, isQuote quote = true ∧ (∀ c ∈ inner, isInner c = true) ∧
      after = quote :: (inner ++ quote :: rest) ∧
      found.2 = .between (before ++ quote :: (inner ++ [quote])) rest := by
  obtain ⟨quote, inner, rest, quoted, all, split, rfl⟩ := mem_ways_specifier_span way
  exact ⟨quote, inner, rest, quoted, all, split, rfl⟩

theorem wordChars_first (before : Text) (word : Identifier) (rest : Text)
    (letters : ∀ c ∈ word.text, isWord c = true) (edge : before.getLast?.any isWord = false) :
    (wordChars word.text).First (.between before (word.text ++ rest)) ()
      (.between (before ++ word.text) rest) := by
  refine First.of_ways (ways_wordChars before word.text rest ?_)
  obtain ⟨c, others, same⟩ := List.exists_cons_of_ne_nil word.nonempty
  have letter : isWord c = true := letters c (by simp [same])
  simp [isBoundary, edge, same, letter]

/-- A keyword may start behind a gap. -/
theorem edge_of_gap (before : Text) {gap : Text} (separated : IsGap gap) :
    (before ++ gap).getLast?.any isWord = false := by
  rw [List.getLast?_append_of_ne_nil _ separated.1, List.getLast?_eq_some_getLast separated.1,
    Option.any_some]
  have blank := separated.2 _ (List.getLast_mem separated.1)
  have other := isIdentifier_of_isBlank blank
  simp only [isIdentifier, Bool.or_eq_false_iff] at other
  exact other.1

/-- What follows the clause of an import. -/
def afterClause (clause : Span) : Pattern ClauseImport := do
  blankRun
  keyword "from"
  blankRun
  let target ← specifier
  return ⟨clause, target⟩

theorem mem_ways_afterClause {before after : Text} {clause : Span} {found : ClauseImport × Cursor}
    (way : found ∈ (afterClause clause).ways (.between before after)) :
    ∃ lead trail quote inner rest, (∀ c ∈ lead, isBlank c = true) ∧ (∀ c ∈ trail, isBlank c = true) ∧
      isQuote quote = true ∧ (∀ c ∈ inner, isInner c = true) ∧
      after = lead ++ (Identifier.fromWord.text ++ (trail ++ quote :: (inner ++ quote :: rest))) ∧
      found.1.clause = clause ∧
      found.2 = .between (before ++ (lead ++ (Identifier.fromWord.text ++ (trail ++
        quote :: (inner ++ [quote]))))) rest := by
  obtain ⟨⟨⟩, place, blanks, way⟩ := mem_ways_bind.mp way
  obtain ⟨lead, rest, rfl, leadBlank, ⟨⟩⟩ := mem_ways_run blanks
  obtain ⟨⟨⟩, place, word, way⟩ := mem_ways_bind.mp way
  obtain ⟨-, rest, rfl, ⟨⟩⟩ := mem_ways_wordChars.mp word
  obtain ⟨⟨⟩, place, blanks, way⟩ := mem_ways_bind.mp way
  obtain ⟨trail, rest, rfl, trailBlank, ⟨⟩⟩ := mem_ways_run blanks
  obtain ⟨target, place, named, way⟩ := mem_ways_bind.mp way
  obtain ⟨quote, inner, rest, quoted, all, rfl, rfl⟩ := mem_ways_specifier named
  obtain rfl := List.mem_singleton.mp way
  refine ⟨lead, trail, quote, inner, rest, leadBlank, trailBlank, quoted, all, rfl, rfl, ?_⟩
  simp only [List.append_assoc]
  rfl

theorem fromFollows_of_blank {gap : Text} (blank : ∀ c ∈ gap, isBlank c = true) (rest : Text) :
    fromFollows (gap ++ (Identifier.fromWord.text ++ rest)) = true := by
  have first : Identifier.fromWord.text = 'f' :: "rom".toList := rfl
  have kept : (Identifier.fromWord.text ++ rest).dropWhile isBlank =
      Identifier.fromWord.text ++ rest := by
    rw [first, List.cons_append, List.dropWhile_cons_of_neg (by decide)]
  rw [fromFollows, List.dropWhile_append_of_pos blank, kept, List.isPrefixOf_iff_prefix]
  exact List.prefix_append _ _

/-- What follows a clause is matched in one way where `from` starts at a word boundary. -/
theorem afterClause_first {gap trail : Text} (before : Text) (clause : Span) (named : Specifier)
    (quote : Quote) (rest : Text) (blank : ∀ c ∈ gap, isBlank c = true)
    (blank' : ∀ c ∈ trail, isBlank c = true) (edge : (before ++ gap).getLast?.any isWord = false) :
    (afterClause clause).First
      (.between before (gap ++ (Identifier.fromWord.text ++ (trail ++
        quote.char :: (named.text ++ quote.char :: rest)))))
      ⟨clause, (before ++ gap ++ Identifier.fromWord.text ++ trail ++ [quote.char]).length,
        (before ++ gap ++ Identifier.fromWord.text ++ trail ++ [quote.char] ++ named.text).length⟩
      (.between (before ++ gap ++ Identifier.fromWord.text ++ trail ++ [quote.char] ++ named.text ++
        [quote.char]) rest) := by
  have letters : ∀ c ∈ Identifier.fromWord.text, isWord c = true := List.all_eq_true.mp (by decide)
  have solid : ∀ c, (quote.char :: (named.text ++ quote.char :: rest)).head? = some c →
      isBlank c = false := by
    cases quote <;> simp [Quote.char] <;> decide
  exact (First.run before blank (Identifier.fromWord.solid_head _)).bind
    ((wordChars_first _ Identifier.fromWord _ letters edge).bind
      ((First.run _ blank' solid).bind ((specifier_first _ named quote rest).bind (First.pure _))))

/-- A clause cannot end before its last character: the word `from` that counts stands right before
the first quote. -/
theorem afterClause_eq_nil {part gap gap' : Text} {quote : Char} (before rest : Text) (clause : Span)
    (solid : ∃ c ∈ part, isBlank c = false) (plain : ∀ c ∈ part, isQuote c = false)
    (separated : IsGap gap) (separated' : IsGap gap') (quoted : isQuote quote = true) :
    (afterClause clause).ways (.between before
      (part ++ (gap ++ (Identifier.fromWord.text ++ (gap' ++ quote :: rest))))) = [] := by
  refine List.eq_nil_iff_forall_not_mem.mpr fun way member => ?_
  obtain ⟨lead, trail, quote', inner, rest', leadBlank, trailBlank, quoted', -, same, -⟩ :=
    mem_ways_afterClause member
  have word : ∀ c ∈ Identifier.fromWord.text, isQuote c = false :=
    fun c member => isQuote_of_clause (.inr (Identifier.fromWord.isToken.2 c member))
  have blank : ∀ {text : Text}, (∀ c ∈ text, isBlank c = true) → ∀ c ∈ text, isQuote c = false :=
    fun all c member => isQuote_of_clause (.inl (all c member))
  -- Both splits agree up to the first quote; from there `from` is the last word, going back.
  obtain ⟨same, -⟩ : part ++ (gap ++ (Identifier.fromWord.text ++ gap')) =
      lead ++ (Identifier.fromWord.text ++ trail) ∧ _ :=
    append_cons_inj (by simpa using same) (by grind [separated.2, separated'.2]) (by grind) quoted quoted'
  obtain ⟨stripped, -⟩ : part ++ gap ++ Identifier.fromWord.text = lead ++ Identifier.fromWord.text ∧ _ :=
    Identifier.fromWord.isToken.eq_of_append_blank Identifier.fromWord.isToken (by simpa using same)
      separated'.2 trailBlank
  obtain ⟨c, member, notBlank⟩ := solid
  have inside : c ∈ lead := List.append_cancel_right stripped ▸ List.mem_append_left gap member
  simp [leadBlank c inside] at notBlank

/-- A place where a longer clause may end. -/
def endsClause (place : Cursor) : Bool := !place.prev.any isBlank && fromFollows place.rest

theorem ways_clauseText_cons (before : Text) {c d : Char} (rest : Text) (first : isClauseChar c = true)
    (second : isClauseChar d = true) :
    clauseText.ways (.between before (c :: d :: rest)) =
      ((), .between (before ++ [c]) (d :: rest)) ::
        ((Cursor.through isClauseChar (before ++ [c, d]) rest).filter endsClause).map ((), ·) := by
  have ends : endsClause = fun place => !place.prev.any isBlank && fromFollows place.rest := rfl
  simp [clauseText, first, second, ends]

/-- The ways to match a clause, the nearest end first: the end of the clause comes after ends within
it. -/
theorem ways_clauseText {body : Text} (before rest : Text) (nonempty : body ≠ [])
    (all : ∀ c ∈ body, isClauseChar c = true)
    (solid : ∀ c, body.getLast? = some c → isBlank c = false) (follows : fromFollows rest = true) :
    ∃ skipped others, clauseText.ways (.between before (body ++ rest)) =
      skipped ++ ((), .between (before ++ body) rest) :: others ∧
      ∀ way ∈ skipped, ∃ left right, body = left ++ right ∧ right ≠ [] ∧
        way = ((), .between (before ++ left) (right ++ rest)) := by
  -- Only a clause of one character may end in a blank, so that case is the pattern's first way.
  match body, nonempty with
  | [c], _ =>
      have accepted : isClauseChar c = true := all c List.mem_cons_self
      have ways : ∃ others, clauseText.ways (.between before (c :: rest)) =
          ((), .between (before ++ [c]) rest) :: others := by
        simp [clauseText, accepted]
      obtain ⟨others, ways⟩ := ways
      exact ⟨[], others, ways, by simp⟩
  | c :: d :: body, _ =>
      have later : ∀ e ∈ body, isClauseChar e = true := fun e member => all e (by simp [member])
      obtain ⟨nearer, places, inside⟩ := Cursor.through_append (before ++ [c, d]) rest later
      obtain ⟨farther, behind⟩ := Cursor.through_eq_cons isClauseChar (before ++ [c, d] ++ body) rest
      have last : (before ++ [c, d] ++ body).getLast? = (c :: d :: body).getLast? := by
        rw [List.append_assoc]
        exact List.getLast?_append_of_ne_nil _ (List.cons_ne_nil _ _)
      have ends : endsClause (.between (before ++ [c, d] ++ body) rest) = true := by
        obtain ⟨e, same⟩ : ∃ e, (c :: d :: body).getLast? = some e :=
          ⟨_, List.getLast?_eq_some_getLast (List.cons_ne_nil _ _)⟩
        simp only [endsClause, Cursor.between_prev, Cursor.between_rest, last, same, Option.any_some,
          solid e same, follows, Bool.not_false, Bool.and_self]
      refine ⟨((), .between (before ++ [c]) (d :: body ++ rest)) ::
        (nearer.filter endsClause).map ((), ·), (farther.filter endsClause).map ((), ·), ?_, ?_⟩
      · rw [List.cons_append, List.cons_append, ways_clauseText_cons before _ (all c (by simp))
          (all d (by simp)), places, behind, List.filter_append, List.filter_cons_of_pos ends,
          List.map_append, List.map_cons]
        simp
      · intro way member
        rcases List.mem_cons.mp member with rfl | member
        · exact ⟨[c], d :: body, rfl, by simp, rfl⟩
        · obtain ⟨place, kept, rfl⟩ := List.mem_map.mp member
          obtain ⟨left, right, rfl, more, rfl⟩ := inside place (List.mem_of_mem_filter kept)
          exact ⟨c :: d :: left, right, rfl, more, by simp⟩

/-- A name that a gap follows is the whole first word. -/
theorem DefaultName.not_modified (name : DefaultName) {gap gap' : Text} (rest rest' : Text)
    (separated : IsGap gap) (separated' : IsGap gap') :
    name.text ++ (gap ++ rest) ≠ Identifier.typeWord.text ++ (gap' ++ rest') := by
  intro same
  obtain ⟨b, others, rfl⟩ := List.exists_cons_of_ne_nil separated.1
  obtain ⟨b', others', rfl⟩ := List.exists_cons_of_ne_nil separated'.1
  exact name.notType (append_cons_inj same name.unbroken Identifier.typeWord.unbroken
    (separated.2 b List.mem_cons_self) (separated'.2 b' List.mem_cons_self)).1

theorem ImportClause.not_modified {clause : ImportClause} {body gap : Text} (rest : Text)
    (spaced : Spaced clause.tokens body) (separated : IsGap gap) :
    ¬ ∃ gap' rest', IsGap gap' ∧
      body ++ (gap ++ rest) = Identifier.typeWord.text ++ (gap' ++ rest') := by
  rintro ⟨gap', rest', separated', same⟩
  cases clause with
  | default name =>
      obtain rfl : body = name.text := spaced.eq_of_single
      exact name.not_modified _ _ separated separated' same
  | selected selection =>
      have first : Identifier.typeWord.text = 't' :: "ype".toList := rfl
      rcases Selection.shape spaced with ⟨_, _, _, _, _, _, rfl⟩ | ⟨_, _, _, _, _, rfl⟩ <;>
        simp [first] at same
  | both name selection =>
      obtain ⟨gap'', rest'', rfl, separated'', -⟩ := spaced.uncons (by simp)
      exact name.not_modified _ _ separated'' separated' (by simpa using same)

theorem typeModifier_takes {gap rest : Text} (before : Text) (separated : IsGap gap)
    (solid : ∀ c, rest.head? = some c → isBlank c = false) :
    typeModifier.First (.between before (Identifier.typeWord.text ++ gap ++ rest)) ()
      (.between (before ++ (Identifier.typeWord.text ++ gap)) rest) := by
  have taken : (do chars Identifier.typeWord.text; blanks1).First
      (.between before (Identifier.typeWord.text ++ (gap ++ rest))) ()
      (.between (before ++ Identifier.typeWord.text ++ gap) rest) :=
    (First.chars before _ _).bind (First.many1 _ separated.1 separated.2 solid)
  simp only [List.append_assoc] at taken ⊢
  exact taken.left

theorem typeModifier_first {typeOnly : Bool} {modifier rest : Text} (before : Text)
    (written : ModifierText typeOnly modifier)
    (solid : ∀ c, rest.head? = some c → isBlank c = false)
    (unmodified : ¬ ∃ gap rest', IsGap gap ∧ rest = Identifier.typeWord.text ++ (gap ++ rest')) :
    typeModifier.First (.between before (modifier ++ rest)) () (.between (before ++ modifier) rest) := by
  cases written with
  | none =>
      have fails : (do chars Identifier.typeWord.text; blanks1).ways (.between before rest) = [] := by
        refine List.eq_nil_iff_forall_not_mem.mpr fun way member => ?_
        obtain ⟨⟨⟩, place, word, member⟩ := mem_ways_bind.mp member
        obtain ⟨rest', rfl, ⟨⟩⟩ := mem_ways_chars.mp word
        obtain ⟨gap, rest, rfl, nonempty, blank, -⟩ := mem_ways_many1.mp member
        exact unmodified ⟨gap, rest, ⟨nonempty, blank⟩, rfl⟩
      rw [List.append_nil]
      exact First.right fails (First.pure ())
  | type separated => exact typeModifier_takes before separated solid

namespace Layout

variable {statement : ImportStatement} (layout : Layout statement)

theorem mem_body : ∀ c ∈ layout.body, isBlank c = true ∨ isTokenChar c = true := by
  intro c member
  rcases layout.body_spaced.mem member with blank | ⟨token, listed, inside⟩
  · exact .inl blank
  · exact .inr ((ImportClause.isToken_of_mem listed).2 c inside)

theorem isClauseChar_of_mem : ∀ c ∈ layout.body, isClauseChar c = true := by
  intro c member
  rcases layout.mem_body c member with blank | part
  · simp [isClauseChar, blank]
  · simp only [isTokenChar, Bool.or_eq_true] at part
    simp only [isClauseChar, Bool.or_eq_true]
    tauto

theorem solid_token : ∀ token ∈ statement.clause.tokens,
    token ≠ [] ∧ ∀ c ∈ token, isBlank c = false := fun _ listed =>
  have token := ImportClause.isToken_of_mem listed
  ⟨token.1, fun c inside => isBlank_of_isTokenChar (token.2 c inside)⟩

theorem afterClause_first (before rest : Text) (clause : Span) :
    (afterClause clause).First (.between before (layout.closing ++ (statement.target ++ rest)))
      ⟨clause, (before ++ layout.closing ++ [statement.quote.char]).length,
        (before ++ layout.closing ++ [statement.quote.char] ++ statement.specifier.text).length⟩
      (.between (before ++ layout.closing ++ statement.target) rest) := by
  have found := Script.afterClause_first before clause statement.specifier statement.quote rest
    layout.beforeFrom_isGap.2 layout.afterFrom_isGap.2 (edge_of_gap before layout.beforeFrom_isGap)
  simpa [closing, ImportStatement.target] using found

theorem afterClause_skips {left right : Text} (before rest : Text) (clause : Span)
    (split : layout.body = left ++ right) (more : right ≠ []) :
    (afterClause clause).ways
      (.between before (right ++ (layout.closing ++ (statement.target ++ rest)))) = [] := by
  have last : layout.body.getLast? = some (right.getLast more) := by
    rw [split, List.getLast?_append_of_ne_nil _ more, List.getLast?_eq_some_getLast more]
  have solid : ∃ c ∈ right, isBlank c = false :=
    ⟨_, List.getLast_mem more, (layout.body_spaced.solid_last solid_token).2 _ last⟩
  have plain : ∀ c ∈ right, isQuote c = false := fun c member =>
    isQuote_of_clause (layout.mem_body c (split ▸ List.mem_append_right left member))
  have fails := afterClause_eq_nil before (statement.specifier.text ++ statement.quote.char :: rest)
    clause solid plain layout.beforeFrom_isGap layout.afterFrom_isGap statement.quote.isQuote_char
  simpa [closing, ImportStatement.target] using fails

/-- From the clause on, the preferred match goes through the whole clause. -/
theorem clausePart_first (before rest : Text) :
    (spanOf clauseText >>= afterClause).First
      (.between before (layout.body ++ (layout.closing ++ (statement.target ++ rest))))
      ⟨⟨before.length, (before ++ layout.body).length⟩,
        (before ++ layout.body ++ layout.closing ++ [statement.quote.char]).length,
        (before ++ layout.body ++ layout.closing ++ [statement.quote.char] ++
          statement.specifier.text).length⟩
      (.between (before ++ layout.body ++ layout.closing ++ statement.target) rest) := by
  obtain ⟨nonempty, ends⟩ := layout.body_spaced.solid_last solid_token
  have follows : fromFollows (layout.closing ++ (statement.target ++ rest)) = true := by
    simpa [closing] using fromFollows_of_blank layout.beforeFrom_isGap.2
      (layout.afterFrom ++ (statement.target ++ rest))
  obtain ⟨skipped, others, ways, inside⟩ := ways_clauseText before
    (layout.closing ++ (statement.target ++ rest)) nonempty layout.isClauseChar_of_mem ends follows
  refine First.spanOf_bind_of_ways ways (fun way member => ?_) (layout.afterClause_first _ rest _)
  obtain ⟨left, right, split, more, rfl⟩ := inside way member
  exact layout.afterClause_skips _ rest _ split more

/-- Where the clause and the specifier stand, behind some text. -/
def found (before : Text) : ClauseImport where
  clause := ⟨(before ++ layout.opening).length, (before ++ layout.opening ++ layout.body).length⟩
  specifier :=
    let start := before ++ layout.opening ++ layout.body ++ layout.closing ++ [statement.quote.char]
    ⟨start.length, (start ++ statement.specifier.text).length⟩

/-- The preferred match at the start of a statement is the whole statement. -/
theorem clauseImport_first (before rest : Text) (edge : before.getLast?.any isWord = false) :
    clauseImport.First (.between before (layout.core ++ rest)) (layout.found before)
      (.between (before ++ layout.core) rest) := by
  have letters : ∀ c ∈ Identifier.importWord.text, isWord c = true :=
    List.all_eq_true.mp (by decide)
  have starts := layout.body_spaced.solid_head solid_token
    (layout.closing ++ (statement.target ++ rest))
  have unmodified := ImportClause.not_modified (Identifier.fromWord.text ++ (layout.afterFrom ++
    (statement.target ++ rest))) layout.body_spaced layout.beforeFrom_isGap
  have whole : clauseImport.First
      (.between before (Identifier.importWord.text ++ (layout.lead ++ (layout.modifier ++
        (layout.body ++ (layout.closing ++ (statement.target ++ rest))))))) _ _ :=
    (wordChars_first before Identifier.importWord _ letters edge).bind
      ((First.many1 _ layout.lead_isGap.1 layout.lead_isGap.2
        (layout.modifier_text.solid_head starts)).bind
        ((typeModifier_first _ layout.modifier_text starts
          (by simpa [closing] using unmodified)).bind (layout.clausePart_first _ rest)))
  simpa [core, opening, found] using whole

end Layout

end ImportAudit.Script
