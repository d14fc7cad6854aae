import ImportAudit.Proofs.HeraldedNames
import ImportAudit.Proofs.Mentions
import ImportAudit.Proofs.SearchCoverage

/-! When the texts of two links overlap. The five forms are searched for independently, and a match of one
form may hold the first word of another: in the specifier, in the clause of an import or between the
braces of a re-export. The forms and the places where this can happen are few. -/
namespace ImportAudit

/-- A word lies before a mark that is not part of it, or behind the mark. -/
theorem Text.exists_side {stretch others left word rest : Text} {mark : Char}
    (absent : mark ∉ word) (same : stretch ++ mark :: others = left ++ (word ++ rest)) :
    (∃ right, stretch = left ++ (word ++ right) ∧ rest = right ++ mark :: others) ∨
      ∃ left', left = stretch ++ mark :: left' ∧ others = left' ++ (word ++ rest) := by
  rcases Text.exists_extra same with ⟨extra, some, rfl, behind⟩ | ⟨extra, rfl, before⟩
  · obtain ⟨c, left', rfl⟩ := List.exists_cons_of_ne_nil some
    obtain ⟨rfl, rfl⟩ := List.cons_eq_cons.mp behind
    exact .inr ⟨left', rfl, rfl⟩
  · obtain ⟨right, rfl, rfl⟩ := Text.exists_of_append before.symm (by simpa using absent)
    exact .inl ⟨right, rfl, rfl⟩

/-- The first of two patterns takes some text, and the second matches behind it. -/
theorem Pattern.Advances.exists_of_bind {α β : Type} {p : Pattern α} {next : α → Pattern β}
    (advances : p.Advances) {before after : Text} {found : β × Cursor}
    (way : found ∈ (p >>= next).ways (.between before after)) :
    ∃ taken rest a, found ∈ (next a).ways (.between (before ++ taken) rest) ∧ after = taken ++ rest := by
  obtain ⟨a, place, start, finish⟩ := mem_ways_bind.mp way
  obtain ⟨taken, rest, rfl, moved⟩ := advances before after _ start
  obtain rfl : place = .between (before ++ taken) rest := moved
  exact ⟨taken, rest, a, finish, rfl⟩

namespace Script
open Pattern Text

namespace Form

/-- What comes between the first word of a form and the quote before the specifier. -/
def Heads : Form → Text → Prop
  | clauseImport, head => ∃ clause trail, head = clause ++ (fromWord ++ trail) ∧
      (∀ c ∈ clause, isBlank c = true ∨ isTokenChar c = true) ∧ ∀ c ∈ trail, isBlank c = true
  | effectImport, head => ∀ c ∈ head, isBlank c = true
  | reexport, _ => True
  | requireCall, head | importCall, head => ∃ gap gap', head = gap ++ '(' :: gap' ∧
      (∀ c ∈ gap, isBlank c = true) ∧ ∀ c ∈ gap', isBlank c = true

/-- What comes behind the quote after the specifier. -/
def Tails : Form → Text → Prop
  | requireCall, tail | importCall, tail => ∃ gap, tail = gap ++ [')'] ∧ ∀ c ∈ gap, isBlank c = true
  | _, tail => tail = []

/-- The parts of a mention and the text around it. -/
structure Anatomy (form : Form) (text : Text) (mention : Mention) (before head : Text) (quote : Char)
    (tail rest : Text) : Prop where
  split : text = before ++ (form.word ++ (head ++ quote :: (mention.specifier.toList ++
    quote :: (tail ++ rest))))
  start : mention.span.start = before.length
  stop : mention.span.stop = (before ++ (form.word ++ (head ++ quote :: (mention.specifier.toList ++
    quote :: tail)))).length
  edge : before.getLast?.any isWord = false
  quoted : isQuote quote = true
  inner : ∀ c ∈ mention.specifier.toList, isInner c = true
  heads : form.Heads head
  tails : form.Tails tail

/-- However the pattern matches, the text has the parts of the form, and a stretch that the value holds
is the specifier. -/
def Divides {α : Type} (form : Form) (p : Pattern α) (part : α → Span) : Prop :=
  ∀ before after found, found ∈ p.ways (.between before after) → ∃ head quote inner tail rest,
    before.getLast?.any isWord = false ∧ isQuote quote = true ∧ (∀ c ∈ inner, isInner c = true) ∧
    form.Heads head ∧ form.Tails tail ∧
    after = form.word ++ (head ++ quote :: (inner ++ quote :: (tail ++ rest))) ∧
    part found.1 = ⟨(before ++ (form.word ++ (head ++ [quote]))).length,
      (before ++ (form.word ++ (head ++ quote :: inner))).length⟩ ∧
    found.2 = .between (before ++ (form.word ++ (head ++ quote :: (inner ++ quote :: tail)))) rest

theorem word_letters (form : Form) : ∀ c ∈ form.word, isWord c = true := by
  cases form <;> exact List.all_eq_true.mp (by decide)

theorem word_ne_nil (form : Form) : form.word ≠ [] := by
  cases form <;> decide

theorem mem_ways_word {form : Form} {before after : Text} {found : Unit × Cursor}
    (way : found ∈ (wordChars form.word).ways (.between before after)) :
    before.getLast?.any isWord = false ∧ ∃ rest, after = form.word ++ rest ∧
      found.2 = .between (before ++ form.word) rest := by
  obtain ⟨rest, edge, rfl, moved⟩ :=
    (mem_ways_wordChars_letters form.word_ne_nil form.word_letters).mp way
  exact ⟨edge, rest, rfl, moved⟩

theorem divides_clauseImport : clauseImport.Divides Script.clauseImport ClauseImport.specifier := by
  intro before after found way
  obtain ⟨⟨⟩, place, started, way⟩ := mem_ways_bind.mp way
  obtain ⟨edge, rest, rfl, rfl⟩ := @mem_ways_word clauseImport _ _ _ started
  obtain ⟨⟨⟩, place, spaced, way⟩ := mem_ways_bind.mp way
  obtain ⟨gap, rest, rfl, -, blank, ⟨⟩⟩ := mem_ways_many1.mp spaced
  obtain ⟨⟨⟩, place, optional, way⟩ := mem_ways_bind.mp way
  obtain ⟨typeOnly, modifier, rest, written, rfl, ⟨⟩⟩ := mem_ways_typeModifier.mp optional
  obtain ⟨span, place, middle, way⟩ := mem_ways_bind.mp way
  rw [ways_spanOf, List.mem_map] at middle
  obtain ⟨⟨⟨⟩, place⟩, middle, ⟨⟩⟩ := middle
  obtain ⟨clause, rest, rfl, proper, ⟨⟩⟩ := mem_ways_clauseText middle
  obtain ⟨⟨⟩, place, passed, way⟩ := mem_ways_bind.mp way
  obtain ⟨lead, rest, rfl, leadBlank, ⟨⟩⟩ := mem_ways_run passed
  obtain ⟨⟨⟩, place, word, way⟩ := mem_ways_bind.mp way
  obtain ⟨-, rest, rfl, ⟨⟩⟩ := mem_ways_wordChars.mp word
  obtain ⟨⟨⟩, place, passed, way⟩ := mem_ways_bind.mp way
  obtain ⟨trail, rest, rfl, trailBlank, ⟨⟩⟩ := mem_ways_run passed
  obtain ⟨target, place, named, last⟩ := mem_ways_bind.mp way
  obtain ⟨quote, inner, rest, quoted, all, rfl, ⟨⟩⟩ := mem_ways_specifier_span named
  obtain rfl := List.mem_singleton.mp last
  have plain : ∀ c ∈ gap ++ (modifier ++ (clause ++ lead)), isBlank c = true ∨ isTokenChar c = true := by
    intro c member
    simp only [List.mem_append] at member
    rcases member with space | early | inside | space
    · exact .inl (blank c space)
    · exact (Layout.mem_modifier written c early).imp id isTokenChar_of_isIdentifier
    · exact clause_of_isClauseChar (proper c inside)
    · exact .inl (leadBlank c space)
  refine ⟨gap ++ (modifier ++ (clause ++ lead)) ++ (fromWord ++ trail), quote, inner, [], rest, edge,
    quoted, all, ⟨_, trail, rfl, plain, trailBlank⟩, rfl, ?_, ?_, ?_⟩
  · simp [fromWord]
  · simp [fromWord]
  · simp [fromWord]

theorem divides_effectImport : effectImport.Divides Script.effectImport id := by
  intro before after found way
  obtain ⟨⟨⟩, place, started, way⟩ := mem_ways_bind.mp way
  obtain ⟨edge, rest, rfl, rfl⟩ := @mem_ways_word effectImport _ _ _ started
  obtain ⟨⟨⟩, place, passed, way⟩ := mem_ways_bind.mp way
  obtain ⟨head, rest, rfl, blank, ⟨⟩⟩ := mem_ways_run passed
  obtain ⟨quote, inner, rest, quoted, all, rfl, rfl⟩ := mem_ways_specifier_span way
  exact ⟨head, quote, inner, [], rest, edge, quoted, all, blank, rfl, by simp, by simp, by simp⟩

theorem divides_reexport : reexport.Divides Script.reexport id := by
  intro before after found way
  obtain ⟨⟨⟩, place, started, way⟩ := mem_ways_bind.mp way
  obtain ⟨edge, rest, rfl, rfl⟩ := @mem_ways_word reexport _ _ _ started
  obtain ⟨gap, rest, ⟨⟩, modified, rfl⟩ := Advances.exists_of_bind (.run _) way
  obtain ⟨modifier, rest, ⟨⟩, listed, rfl⟩ := typeModifier_advances.exists_of_bind modified
  obtain ⟨names, rest, ⟨⟩, spaced, rfl⟩ := Advances.exists_of_bind
    (.either starExport_advances (.bind braced_advances fun _ => .pure _)) listed
  obtain ⟨lead, rest, ⟨⟩, worded, rfl⟩ := Advances.exists_of_bind (.run _) spaced
  obtain ⟨word, rest, ⟨⟩, separated, rfl⟩ := Advances.exists_of_bind (.chars _) worded
  obtain ⟨trail, rest, ⟨⟩, named, rfl⟩ := Advances.exists_of_bind (.run _) separated
  obtain ⟨quote, inner, rest, quoted, all, rfl, rfl⟩ := mem_ways_specifier_span named
  exact ⟨gap ++ (modifier ++ (names ++ (lead ++ (word ++ trail)))), quote, inner, [], rest, edge, quoted,
    all, trivial, rfl, by simp, by simp, by simp⟩

theorem divides_moduleCall {form : Form} {word : String} (same : form.word = word.toList)
    (call : form = requireCall ∨ form = importCall) : form.Divides (moduleCall word) id := by
  intro before after found way
  obtain ⟨⟨⟩, place, started, way⟩ := mem_ways_bind.mp way
  unfold keyword at started
  rw [← same] at started
  obtain ⟨edge, rest, rfl, rfl⟩ := mem_ways_word started
  obtain ⟨⟨⟩, place, passed, way⟩ := mem_ways_bind.mp way
  obtain ⟨gap, rest, rfl, blank, ⟨⟩⟩ := mem_ways_run passed
  obtain ⟨⟨⟩, place, opened, way⟩ := mem_ways_bind.mp way
  obtain ⟨c, rest, rfl, paren, ⟨⟩⟩ := mem_ways_one.mp opened
  obtain rfl : c = '(' := by simpa using paren
  obtain ⟨⟨⟩, place, passed, way⟩ := mem_ways_bind.mp way
  obtain ⟨gap', rest, rfl, blank', ⟨⟩⟩ := mem_ways_run passed
  obtain ⟨target, place, named, way⟩ := mem_ways_bind.mp way
  obtain ⟨quote, inner, rest, quoted, all, rfl, ⟨⟩⟩ := mem_ways_specifier_span named
  obtain ⟨⟨⟩, place, passed, way⟩ := mem_ways_bind.mp way
  obtain ⟨trail, rest, rfl, trailBlank, ⟨⟩⟩ := mem_ways_run passed
  obtain ⟨⟨⟩, place, closed, last⟩ := mem_ways_bind.mp way
  obtain ⟨d, rest, rfl, paren, ⟨⟩⟩ := mem_ways_one.mp closed
  obtain rfl : d = ')' := by simpa using paren
  obtain rfl := List.mem_singleton.mp last
  have heads : form.Heads (gap ++ '(' :: gap') := by
    rcases call with rfl | rfl <;> exact ⟨gap, gap', rfl, blank, blank'⟩
  have tails : form.Tails (trail ++ [')']) := by
    rcases call with rfl | rfl <;> exact ⟨trail, rfl, trailBlank⟩
  exact ⟨gap ++ '(' :: gap', quote, inner, trail ++ [')'], rest, edge, quoted, all, heads, tails,
    by simp, by simp, by simp⟩

theorem Divides.anatomy {α : Type} {form : Form} {p : Pattern α} {part : α → Span} {text : Text}
    {found : Match α} {mention : Mention} (divides : form.Divides p part) (member : found ∈ p.all text)
    (span : mention.span = found.span)
    (named : mention.specifier = wordAt text (part found.value)) :
    ∃ before head quote tail rest, form.Anatomy text mention before head quote tail rest := by
  obtain ⟨before, after, place, rfl, first, located, -⟩ := first_of_mem_all member
  obtain ⟨head, quote, inner, tail, rest, edge, quoted, all, heads, tails, rfl, value, moved⟩ :=
    divides before after _ first.mem
  obtain rfl : place = _ := moved
  have specifier : mention.specifier.toList = inner := by
    have sliced := slice_append (before ++ (form.word ++ (head ++ [quote]))) inner
      (quote :: (tail ++ rest))
    rw [named, wordAt, String.toList_ofList, value]
    simpa using sliced
  rw [located] at span
  refine ⟨before, head, quote, tail, rest, ?_⟩
  rw [← specifier] at span all
  exact ⟨by rw [specifier], by rw [span], by rw [span, Cursor.between_offset], edge, quoted, all, heads,
    tails⟩

theorem exists_anatomy {form : Form} {text : Text} {mention : Mention}
    (member : mention ∈ form.mentions text) :
    ∃ before head quote tail rest, form.Anatomy text mention before head quote tail rest := by
  cases form with
  | clauseImport =>
      obtain ⟨found, listed, rfl⟩ := List.mem_map.mp member
      exact divides_clauseImport.anatomy listed rfl rfl
  | effectImport =>
      obtain ⟨found, listed, rfl⟩ := List.mem_map.mp member
      exact divides_effectImport.anatomy listed rfl rfl
  | reexport =>
      obtain ⟨found, listed, rfl⟩ := List.mem_map.mp member
      exact divides_reexport.anatomy listed rfl rfl
  | requireCall =>
      obtain ⟨found, listed, rfl⟩ := List.mem_map.mp member
      exact (divides_moduleCall rfl (.inl rfl)).anatomy listed rfl rfl
  | importCall =>
      obtain ⟨found, listed, rfl⟩ := List.mem_map.mp member
      exact (divides_moduleCall rfl (.inr rfl)).anatomy listed rfl rfl

/-- A mention starts where no word goes on, and ends in a quote or a parenthesis. -/
theorem exists_taken {form : Form} {text : Text} {mention : Mention}
    (member : mention ∈ form.mentions text) :
    ∃ before taken rest, text = before ++ (taken ++ rest) ∧
      mention.span = ⟨before.length, (before ++ taken).length⟩ ∧ form.word <+: taken ∧
      before.getLast?.any isWord = false ∧ (before ++ taken).getLast?.any isWord = false := by
  obtain ⟨before, head, quote, tail, rest, anatomy⟩ := exists_anatomy member
  refine ⟨before, form.word ++ (head ++ quote :: (mention.specifier.toList ++ quote :: tail)), rest,
    ?_, ?_, List.prefix_append _ _, anatomy.edge, ?_⟩
  · simpa using anatomy.split
  · rw [← anatomy.start, ← anatomy.stop]
  · obtain ⟨inner, c, ends, plain⟩ : ∃ inner c, quote :: tail = inner ++ [c] ∧ isWord c = false := by
      have tails := anatomy.tails
      cases form with
      | clauseImport | effectImport | reexport =>
          obtain rfl : tail = [] := tails
          refine ⟨[], quote, rfl, ?_⟩
          rcases isQuote_iff.mp anatomy.quoted with rfl | rfl <;> decide
      | requireCall | importCall =>
          obtain ⟨gap, rfl, -⟩ := tails
          exact ⟨quote :: gap, ')', rfl, by decide⟩
    rw [ends, ← List.cons_append, ← List.append_assoc, ← List.append_assoc, ← List.append_assoc,
      ← List.append_assoc, List.getLast?_concat]
    exact plain

/-- The forms whose first word can come before the specifier of a form. -/
def headAdmits : Form → Form → Bool
  | clauseImport, other => other == reexport
  | reexport, other => other != reexport
  | _, _ => false

/-- The forms whose first word can be part of the specifier of a form. -/
def specifierAdmits : Form → Form → Bool
  | requireCall, other | importCall, other => other == reexport
  | form, other => other != form

section Overlap

variable {form other : Form} {head head' left right tail rest : Text}

theorem exists_letter (other : Form) (left right : Text) :
    ∃ c ∈ left ++ (other.word ++ right), isWord c = true := by
  obtain ⟨c, letters, word⟩ := List.exists_cons_of_ne_nil other.word_ne_nil
  exact ⟨c, by simp [word], other.word_letters c (by simp [word])⟩

theorem quote_not_mem_word (other : Form) {quote : Char} (quoted : isQuote quote = true) :
    quote ∉ other.word := by
  intro member
  have letter := other.word_letters quote member
  rcases isQuote_iff.mp quoted with rfl | rfl <;> exact absurd letter (by decide)

/-- The head of an import with a clause is made of blanks and the characters of a clause. -/
theorem Heads.plain (heads : clauseImport.Heads head) :
    ∀ c ∈ head, isBlank c = true ∨ isTokenChar c = true := by
  obtain ⟨clause, trail, rfl, plain, blank⟩ := heads
  intro c member
  rcases List.mem_append.mp member with inside | later
  · exact plain c inside
  · rcases List.mem_append.mp later with word | space
    · exact .inr (Identifier.fromWord.isToken.2 c word)
    · exact .inl (blank c space)

/-- Only a re-export has a quote between its first word and its specifier. -/
theorem Heads.unquoted (heads : form.Heads head) (single : form ≠ reexport) :
    ∀ c ∈ head, isQuote c = false := by
  have blanks : ∀ {gap : Text}, (∀ c ∈ gap, isBlank c = true) → ∀ c ∈ gap, isQuote c = false :=
    fun blank c member => isQuote_of_clause (.inl (blank c member))
  cases form with
  | clauseImport => exact fun c member => isQuote_of_clause (heads.plain c member)
  | effectImport => exact blanks heads
  | reexport => exact absurd rfl single
  | requireCall | importCall =>
      obtain ⟨gap, gap', rfl, blank, blank'⟩ := heads
      exact List.forall_mem_append.mpr ⟨blanks blank, List.forall_mem_cons.mpr ⟨by decide, blanks blank'⟩⟩

/-- Behind the specifier no word starts. -/
theorem Tails.wordless (tails : form.Tails tail) : ∀ c ∈ tail, isWord c = false := by
  cases form with
  | requireCall | importCall =>
      obtain ⟨gap, rfl, blank⟩ := tails
      refine List.forall_mem_append.mpr ⟨fun c member => isWord_of_isBlank (blank c member), ?_⟩
      exact List.forall_mem_singleton.mpr (by decide)
  | clauseImport | effectImport | reexport =>
      obtain rfl : tail = [] := tails
      simp

/-- In the clause of an import no other import starts: what follows its word is the clause, up to the
word `from`, and neither a quote nor a parenthesis. -/
theorem reexport_of_clause {quote quote' : Char} {later later' : Text}
    (heads : clauseImport.Heads (left ++ (other.word ++ right))) (heads' : other.Heads head')
    (different : clauseImport ≠ other) (quoted : isQuote quote = true) (quoted' : isQuote quote' = true)
    (same : right ++ quote :: later = head' ++ quote' :: later') : other = reexport := by
  have behind : ∀ c ∈ right, isBlank c = true ∨ isTokenChar c = true := fun c member =>
    heads.plain c (by simp [member])
  have call : ∀ {gap gap' : Text}, (∀ c ∈ gap, isBlank c = true) → head' ≠ gap ++ '(' :: gap' := by
    rintro gap gap' blank rfl
    rw [List.append_assoc, List.cons_append] at same
    have marked : isCallMark quote = true := by simp [isCallMark, quoted]
    obtain ⟨-, rfl, -⟩ := append_cons_inj same (fun c member => isCallMark_of_clause (behind c member))
      (fun c member => isCallMark_of_clause (.inl (blank c member))) marked rfl
    exact absurd quoted (by decide)
  cases other with
  | reexport => rfl
  | clauseImport => exact absurd rfl different
  | requireCall | importCall =>
      obtain ⟨gap, gap', split, blank, -⟩ := heads'
      exact absurd split (call blank)
  | effectImport =>
      obtain ⟨rfl, -, -⟩ := append_cons_inj same (fun c member => isQuote_of_clause (behind c member))
        (heads'.unquoted (by decide)) quoted quoted'
      obtain ⟨clause, trail, split, -, blank⟩ := heads
      -- The last word before the quote would be both `from` and `import`.
      have ends : (left ++ effectImport.word).getLast? = some 't' := by
        rw [List.getLast?_append_of_ne_nil _ (by decide)]
        decide
      have ends' : (clause ++ fromWord).getLast? = some 'm' := by
        rw [List.getLast?_append_of_ne_nil _ (by decide)]
        decide
      have words : left ++ effectImport.word = clause ++ fromWord := by
        apply eq_of_append_blank (by simpa using split) heads' blank
        · intro c last
          obtain rfl : 't' = c := Option.some.inj (ends.symm.trans last)
          decide
        · intro c last
          obtain rfl : 'm' = c := Option.some.inj (ends'.symm.trans last)
          decide
      rw [words, ends'] at ends
      exact absurd ends (by decide)

/-- Where a first word comes before a specifier. -/
theorem headAdmits_of_heads {quote quote' : Char} {later later' : Text}
    (heads : form.Heads (left ++ (other.word ++ right))) (heads' : other.Heads head')
    (different : form ≠ other) (quoted : isQuote quote = true) (quoted' : isQuote quote' = true)
    (same : right ++ quote :: later = head' ++ quote' :: later') : form.headAdmits other = true := by
  obtain ⟨c, member, letter⟩ := other.exists_letter left right
  cases form with
  | clauseImport => simp [headAdmits, reexport_of_clause heads heads' different quoted quoted' same]
  | reexport => simpa [headAdmits] using different.symm
  | effectImport =>
      rw [isWord_of_isBlank (heads c member)] at letter
      cases letter
  | requireCall | importCall =>
      obtain ⟨gap, gap', split, blank, blank'⟩ := heads
      rw [split] at member
      rcases List.mem_append.mp member with space | inside
      · rw [isWord_of_isBlank (blank c space)] at letter
        cases letter
      · rcases List.mem_cons.mp inside with rfl | space
        · exact absurd letter (by decide)
        · rw [isWord_of_isBlank (blank' c space)] at letter
          cases letter

/-- In the specifier of a call only a re-export can start, which may hold the quote between its braces: the
quote behind the specifier is followed by the end of the call, and not by a relative specifier. -/
theorem specifierAdmits_of_tails {quote quote' : Char} {inner later : Text}
    (tails : form.Tails tail) (heads' : other.Heads head') (different : form ≠ other)
    (quoted : isQuote quote = true) (quoted' : isQuote quote' = true)
    (plain : ∀ c ∈ right, isQuote c = false) (relative : ['.'] <+: inner)
    (same : right ++ quote :: (tail ++ rest) = head' ++ quote' :: (inner ++ later)) :
    form.specifierAdmits other = true := by
  have call : (∃ gap, tail = gap ++ [')'] ∧ ∀ c ∈ gap, isBlank c = true) → other = reexport := by
    rintro ⟨gap, rfl, blank⟩
    by_contra single
    obtain ⟨-, -, ends⟩ := append_cons_inj same plain (heads'.unquoted single) quoted quoted'
    obtain ⟨others, rfl⟩ := relative
    cases gap with
    | nil => simp at ends
    | cons c gap =>
        obtain ⟨rfl, -⟩ := List.cons_eq_cons.mp ends
        exact absurd (blank '.' (by simp)) (by decide)
  cases form with
  | requireCall | importCall => simp [specifierAdmits, call tails]
  | clauseImport | effectImport | reexport => simpa [specifierAdmits] using different.symm

/-- Matches of one form do not overlap. -/
theorem mentions_apart {text : Text} {first second : Mention} (member : first ∈ form.mentions text)
    (member' : second ∈ form.mentions text) (later : first.span.start < second.span.start) :
    first.span.stop ≤ second.span.start := by
  have ordered : (form.mentions text).Pairwise fun first second =>
      first.span.stop ≤ second.span.start := by
    cases form <;> exact List.pairwise_map.mpr (allFrom_ordered _ 0 none 0 text)
  have some := (shapes_of_mem member').start_lt
  obtain ⟨i, bound, rfl⟩ := List.mem_iff_getElem.mp member
  obtain ⟨j, bound', rfl⟩ := List.mem_iff_getElem.mp member'
  rcases Nat.lt_trichotomy i j with before | rfl | behind
  · exact List.pairwise_iff_getElem.mp ordered i j bound bound' before
  · omega
  · have stops := List.pairwise_iff_getElem.mp ordered j i bound' bound behind
    omega

/-- What it is for the second of two mentions to start within the text of the first: its first word
is part of what comes before the specifier, or of the specifier. -/
def Interrupts (text : Text) (second first : Mention) : Prop :=
  ∃ form other : Form, ∃ head quote tail left right,
    first ∈ form.mentions text ∧ second ∈ other.mentions text ∧
    text.slice first.span = form.word ++ (head ++ quote :: (first.specifier.toList ++ quote :: tail)) ∧
    ((form.headAdmits other = true ∧ head = left ++ (other.word ++ right) ∧
        second.span.start = first.span.start + (form.word ++ left).length) ∨
      form.specifierAdmits other = true ∧ first.specifier.toList = left ++ (other.word ++ right) ∧
        second.span.start = first.span.start + (form.word ++ (head ++ quote :: left)).length)

theorem Anatomy.slice_eq {text before : Text} {mention : Mention} {quote : Char}
    (anatomy : form.Anatomy text mention before head quote tail rest) : text.slice mention.span =
      form.word ++ (head ++ quote :: (mention.specifier.toList ++ quote :: tail)) := by
  have sliced := slice_append before (form.word ++ (head ++ quote :: (mention.specifier.toList ++
    quote :: tail))) rest
  have span : mention.span = ⟨mention.span.start, mention.span.stop⟩ := rfl
  rw [span, anatomy.start, anatomy.stop, anatomy.split]
  simpa using sliced

section Pairs

variable {text before before' tail' rest' : Text} {first second : Mention} {quote quote' : Char}

/-- The later of two mentions starts behind the first word of the other, since a word starts at a word
boundary. -/
theorem Anatomy.exists_left (anatomy : form.Anatomy text first before head quote tail rest)
    (anatomy' : other.Anatomy text second before' head' quote' tail' rest')
    (later : first.span.start < second.span.start) :
    ∃ left, before' = before ++ (form.word ++ left) ∧
      head ++ quote :: (first.specifier.toList ++ quote :: (tail ++ rest)) = left ++ (other.word ++
        (head' ++ quote' :: (second.specifier.toList ++ quote' :: (tail' ++ rest')))) := by
  rw [anatomy.start, anatomy'.start] at later
  rcases Text.exists_extra (anatomy.split.symm.trans anatomy'.split) with
    ⟨extra, some, rfl, behind⟩ | ⟨extra, rfl, -⟩
  · rcases Text.exists_extra behind with ⟨left, -, rfl, within⟩ | ⟨left, word, -⟩
    · exact ⟨left, rfl, within⟩
    · have letter := form.word_letters (extra.getLast some) (by simp [word])
      have edge := anatomy'.edge
      rw [List.getLast?_append_of_ne_nil _ some, List.getLast?_eq_some_getLast some, Option.any_some,
        letter] at edge
      cases edge
  · rw [List.length_append] at later
    omega

/-- Behind its specifier a mention is too short to hold a word. -/
theorem Tails.not_interrupted (tails : form.Tails tail) {later : Text}
    (same : tail ++ rest = left ++ (other.word ++ later)) : tail.length ≤ left.length := by
  rcases Text.exists_extra same with ⟨extra, -, rfl, -⟩ | ⟨extra, rfl, follows⟩
  · simp
  · obtain ⟨c, letters, word⟩ := List.exists_cons_of_ne_nil other.word_ne_nil
    cases extra with
    | nil => simp
    | cons d extra =>
        rw [word, List.cons_append, List.cons_append] at follows
        obtain ⟨rfl, -⟩ := List.cons_eq_cons.mp follows
        have blank := tails.wordless c (by simp)
        rw [other.word_letters c (by simp [word])] at blank
        cases blank

theorem interrupts_of_overlap (member : first ∈ form.mentions text)
    (member' : second ∈ other.mentions text) (relative : ['.'] <+: second.specifier.toList)
    (later : first.span.start < second.span.start) (overlap : second.span.start < first.span.stop) :
    Interrupts text second first := by
  have different : form ≠ other := by
    rintro rfl
    have apart := mentions_apart member member' later
    omega
  obtain ⟨before, head, quote, tail, rest, anatomy⟩ := exists_anatomy member
  obtain ⟨before', head', quote', tail', rest', anatomy'⟩ := exists_anatomy member'
  obtain ⟨left, rfl, within⟩ := anatomy.exists_left anatomy' later
  have begins : second.span.start = first.span.start + (form.word ++ left).length := by
    rw [anatomy.start, anatomy'.start, List.length_append]
  have absent := other.quote_not_mem_word anatomy.quoted
  -- The word stands before the first quote, between the quotes or behind them.
  rcases Text.exists_side absent within with ⟨right, rfl, follows⟩ | ⟨left, rfl, inside⟩
  · refine ⟨form, other, _, quote, tail, left, right, member, member', anatomy.slice_eq,
      .inl ⟨?_, rfl, begins⟩⟩
    exact headAdmits_of_heads anatomy.heads anatomy'.heads different anatomy.quoted anatomy'.quoted
      follows.symm
  · rcases Text.exists_side absent inside with ⟨right, inner, follows⟩ | ⟨left, rfl, behind⟩
    · refine ⟨form, other, head, quote, tail, left, right, member, member', anatomy.slice_eq,
        .inr ⟨?_, inner, begins⟩⟩
      refine specifierAdmits_of_tails anatomy.tails anatomy'.heads different anatomy.quoted
        anatomy'.quoted (fun c listed => ?_) relative follows.symm
      exact isQuote_of_isInner (anatomy.inner c (by simp [inner, listed]))
    · have short := anatomy.tails.not_interrupted behind
      rw [begins, anatomy.start, anatomy.stop] at overlap
      simp only [List.length_append, List.length_cons] at overlap
      omega

/-- A mention that starts within the text of another overlaps it. -/
theorem Interrupts.overlap (interrupts : Interrupts text second first) :
    second.span.start < first.span.stop := by
  obtain ⟨form, other, head, quote, tail, left, right, -, -, sliced, inside⟩ := interrupts
  have some := List.length_pos_iff.mpr other.word_ne_nil
  have size := congrArg List.length sliced
  have fits : (text.slice first.span).length ≤ first.span.stop - first.span.start := by
    simp [slice]
  rcases inside with ⟨-, rfl, begins⟩ | ⟨-, inner, begins⟩
  · simp only [List.length_append, List.length_cons] at size begins
    omega
  · rw [inner] at size
    simp only [List.length_append, List.length_cons] at size begins
    omega

end Pairs
end Overlap
end Form
end Script

namespace Source
open Script

/-- The links of a text overlap exactly where a later one starts within the text of an earlier one: in
what comes before the specifier of a clause import, where only a re-export can start, or of a
re-export, or in a specifier. So the links are apart if and only if none starts within another. -/
theorem linksOf_overlap (disk : Disk) (root : Path) (extensions : List String) (importer : Path)
    (text : Text) :
    ((linksOf disk root extensions importer text).Pairwise fun first second =>
      first.span.start < second.span.start ∧
      (second.span.start < first.span.stop ↔ Form.Interrupts text second.mention first.mention)) ∧
    (((linksOf disk root extensions importer text).Pairwise fun first second =>
        first.span.stop ≤ second.span.start) ↔
      (linksOf disk root extensions importer text).Pairwise fun first second =>
        ¬ Form.Interrupts text second.mention first.mention) := by
  have pairs : (linksOf disk root extensions importer text).Pairwise fun first second =>
      first.span.start < second.span.start ∧
      (second.span.start < first.span.stop ↔ Form.Interrupts text second.mention first.mention) := by
    apply (linksOf_strict disk root extensions importer text).imp_of_mem
    intro first second member member' later
    obtain ⟨form, found⟩ := exists_form member
    obtain ⟨other, found'⟩ := exists_form member'
    refine ⟨later, fun overlap => ?_, Form.Interrupts.overlap⟩
    exact Form.interrupts_of_overlap found found' (relative_of_mem member') later overlap
  refine ⟨pairs, ?_, ?_⟩
  · intro apart
    refine (pairs.and apart).imp fun {first second} both interrupts => ?_
    have overlap := both.1.2.mpr interrupts
    have ends := both.2
    omega
  · intro apart
    refine (pairs.and apart).imp fun {first second} both => ?_
    exact Nat.le_of_not_lt fun overlap => both.2 (both.1.2.mp overlap)

/-- A re-export under a comment that ends in the word `import`. -/
def commentedReexport : Text := "// what others import\nexport { a } from './b'\n".toList

def commentedLinks : List Link :=
  [⟨.parse "/b.ts", "./b", [⟨.named, "a", "a", 2⟩], 1, ⟨15, 45⟩⟩,
    ⟨.parse "/b.ts", "./b", [], 2, ⟨22, 45⟩⟩]

/-- The re-export is read twice, once as the clause of an import that binds what it passes on. -/
theorem commentedReexport_overlaps :
    ∃ disk : Disk,
      linksOf disk (.parse "/") [".ts"] (.parse "/a.ts") commentedReexport = commentedLinks ∧
      ¬ commentedLinks.Pairwise fun first second => first.span.stop ≤ second.span.start := by
  let disk := (default : Disk).put (.parse "/b.ts") (Text.Utf8.encode "export const a = 1".toList)
  have sorted : mentions commentedReexport = mentionsByForm commentedReexport :=
    List.mergeSort_of_pairwise (by decide +kernel)
  refine ⟨disk, ?_, by decide⟩
  rw [linksOf, sorted]
  decide +kernel

end Source
end ImportAudit
