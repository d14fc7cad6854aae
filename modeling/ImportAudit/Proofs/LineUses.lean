import ImportAudit.Proofs.DottedNames
import ImportAudit.Proofs.ImportLineSearch
import Mathlib.Algebra.Ring.Nat
import Mathlib.Data.List.Chain

/-! What counts as a use of a name in the text of import lines. Before a specifier only two adjacent
tokens can, where the first announces the second, and in a specifier only a name before a dot. All other
uses need a character or a pair of tokens that such a text does not have. -/
namespace ImportAudit.Script
open Pattern Text

/-- The tokens behind which any token may stand. -/
def openers : List Text := [Identifier.importWord.text, Identifier.typeWord.text, ['{'], [','], ['*']]

/-- The tokens that may stand behind any token. -/
def closers : List Text := [Identifier.asWord.text, Identifier.fromWord.text, [','], ['}']]

/-- Which tokens of a line can be adjacent. -/
def Adjoins (locals : List Text) (first second : Text) : Prop :=
  first ∈ openers ∨ second ∈ closers ∨ first = Identifier.asWord.text ∧ second ∈ locals

section Adjacent

variable {locals tokens rest : List Text} {token : Text}

theorem adjoin_opener (opens : token ∈ openers) (chain : tokens.IsChain (Adjoins locals)) :
    (token :: tokens).IsChain (Adjoins locals) :=
  List.isChain_cons.mpr ⟨fun _ _ => .inl opens, chain⟩

theorem adjoin_closer (closes : token ∈ closers) (chain : tokens.IsChain (Adjoins locals))
    (later : (token :: rest).IsChain (Adjoins locals)) :
    (tokens ++ token :: rest).IsChain (Adjoins locals) := by
  refine List.isChain_append.mpr ⟨chain, later, fun first _ second next => ?_⟩
  obtain rfl : token = second := by simpa using next
  exact .inr (.inl closes)

theorem adjoin_modifier (typeOnly : Bool) (chain : tokens.IsChain (Adjoins locals)) :
    (modifierTokens typeOnly ++ tokens).IsChain (Adjoins locals) := by
  cases typeOnly with
  | false => exact chain
  | true => exact adjoin_opener (by simp [openers]) chain

theorem ImportItem.adjoin (item : ImportItem) (bound : (item.alias?.getD item.name).text ∈ locals) :
    item.tokens.IsChain (Adjoins locals) := by
  unfold tokens itemTokens
  obtain ⟨typeOnly, name, alias?⟩ := item
  cases alias? with
  | none => exact adjoin_modifier _ (.singleton _)
  | some other =>
      refine adjoin_modifier _ (adjoin_closer (by simp [closers]) (.singleton _) ?_)
      exact .cons_cons (.inr (.inr ⟨rfl, bound⟩)) (.singleton _)

theorem adjoin_list {items : List ImportItem} (trailing : Bool)
    (bound : ∀ item ∈ items, (item.alias?.getD item.name).text ∈ locals) :
    (listTokens items trailing ++ [['}']]).IsChain (Adjoins locals) := by
  have close : [['}']].IsChain (Adjoins locals) := .singleton _
  have comma : [[','], ['}']].IsChain (Adjoins locals) := adjoin_opener (by simp [openers]) close
  have last : ∀ tokens : List Text, tokens.IsChain (Adjoins locals) →
      (tokens ++ (if trailing then [[',']] else []) ++ [['}']]).IsChain (Adjoins locals) := by
    intro tokens chain
    cases trailing with
    | false => simpa using adjoin_closer (by simp [closers]) chain close
    | true => simpa using adjoin_closer (by simp [closers]) chain comma
  induction items with
  | nil => simpa [listTokens] using last [] .nil
  | cons item items ih =>
      have own := item.adjoin (bound item List.mem_cons_self)
      have later := ih fun other listed => bound other (List.mem_cons_of_mem item listed)
      cases items with
      | nil => exact last _ own
      | cons other items =>
          rw [listTokens, List.append_assoc, List.cons_append]
          exact adjoin_closer (by simp [closers]) own (adjoin_opener (by simp [openers]) later)

theorem Selection.adjoin (selection : Selection) :
    selection.tokens.IsChain (Adjoins selection.locals) := by
  cases selection with
  | wholeModule name =>
      refine adjoin_opener (by simp [openers]) (.cons_cons (.inr (.inr ⟨rfl, ?_⟩)) (.singleton _))
      simp [locals]
  | named items trailing =>
      refine adjoin_opener (by simp [openers]) (adjoin_list trailing fun item listed => ?_)
      exact List.mem_map_of_mem listed

theorem Adjoins.mono {locals' : List Text} {first second : Text} (subset : locals ⊆ locals')
    (adjoins : Adjoins locals first second) : Adjoins locals' first second :=
  adjoins.imp id (Or.imp id fun ⟨first, second⟩ => ⟨first, subset second⟩)

theorem LineClause.adjoin (clause : LineClause) : clause.tokens.IsChain (Adjoins clause.locals) := by
  cases clause with
  | default name => exact .singleton _
  | selected selection => exact selection.adjoin
  | both name selection =>
      have later := selection.adjoin.imp fun _ _ => Adjoins.mono (List.subset_cons_self name.text _)
      exact adjoin_closer (by simp [closers]) (.singleton name.text)
        (adjoin_opener (by simp [openers]) later)

/-- The tokens of a line are adjacent as they can be. -/
theorem ImportLine.adjoin (line : ImportLine) : line.tokens.IsChain (Adjoins line.locals) := by
  cases line with
  | clause typeOnly names specifier =>
      refine adjoin_opener (by simp [openers]) (adjoin_modifier typeOnly ?_)
      exact adjoin_closer (by simp [closers]) names.adjoin (.singleton _)
  | effect specifier => exact .singleton _

end Adjacent

/-- The text up to the end of a word has a token that ends in the word as its last. -/
theorem exists_last_token (left : Text) (word : Identifier) :
    ∃ tokens lead, lex (left ++ word.text) = tokens ++ [lead ++ word.text] := by
  refine ⟨lex (left.rdropWhile isIdentifier), left.rtakeWhile isIdentifier, ?_⟩
  have whole : ∀ c ∈ left.rtakeWhile isIdentifier ++ word.text, isIdentifier c = true := by
    intro c inside
    rcases List.mem_append.mp inside with lead | own
    · exact List.mem_rtakeWhile_imp lead
    · exact word.proper c own
  have apart : Apart (left.rdropWhile isIdentifier) (left.rtakeWhile isIdentifier ++ word.text) := by
    by_cases empty : left.rdropWhile isIdentifier = []
    · exact .inl (by simp [empty])
    · refine .inl ?_
      rw [List.getLast?_eq_some_getLast empty, Option.any_some]
      simpa using List.rdropWhile_last_not isIdentifier left empty
  have last := @lex_word [] _ (by simp [word.nonempty]) whole rfl
  rw [List.append_nil] at last
  calc lex (left ++ word.text)
      = lex (left.rdropWhile isIdentifier ++ (left.rtakeWhile isIdentifier ++ word.text)) := by
        rw [← List.append_assoc, List.rdropWhile_append_rtakeWhile]
    _ = _ := by rw [lex_append apart, last, lex]

/-- A token behind a word and a gap follows the token that ends in the word. -/
theorem exists_adjacent {left gap token behind : Text} (word : Identifier)
    (blank : ∀ c ∈ gap, isBlank c = true)
    (first : Apart (left ++ word.text) (gap ++ (token ++ behind))) (second : Apart token behind)
    (single : lex token = [token]) :
    ∃ tokens lead, lex (left ++ word.text ++ (gap ++ (token ++ behind))) =
      tokens ++ (lead ++ word.text) :: token :: lex behind := by
  obtain ⟨tokens, lead, last⟩ := exists_last_token left word
  refine ⟨tokens, lead, ?_⟩
  rw [lex_append first, last, lex_blank_append blank, lex_append second, single]
  simp

/-- A match of a reexport starts with `export` and then a brace or `default`. -/
theorem mem_ways_reexported {name before after : Text} {found : Nat × Cursor}
    (way : found ∈ (Usage.reexported.pattern name).ways (.between before after)) :
    ∃ gap token rest, after = Identifier.exportWord.text ++ (gap ++ (token ++ rest)) ∧
      (∀ c ∈ gap, isBlank c = true) ∧ Apart token rest ∧
      (token = ['{'] ∨ gap ≠ [] ∧ token = Identifier.defaultWord.text) := by
  obtain ⟨⟨⟩, place, first, way⟩ := mem_ways_bind.mp way
  obtain ⟨-, rest, rfl, ⟨⟩⟩ := mem_ways_wordChars.mp first
  obtain ⟨⟨⟩, place, kind, -⟩ := mem_ways_bind.mp way
  rw [ways_either, List.mem_append] at kind
  rcases kind with word | brace
  · obtain ⟨⟨⟩, place, blanks, word⟩ := mem_ways_bind.mp word
    obtain ⟨gap, rest, rfl, nonempty, blank, ⟨⟩⟩ := mem_ways_run1 blanks
    obtain ⟨⟨⟩, place, word, more⟩ := mem_ways_bind.mp word
    obtain ⟨rest, rfl, ⟨⟩⟩ := mem_ways_chars.mp word
    obtain ⟨behind, rest, rfl, some, blank', -⟩ := mem_ways_many1.mp more
    exact ⟨gap, Identifier.defaultWord.text, behind ++ rest, rfl, blank, .of_blank blank' some,
      .inr ⟨nonempty, rfl⟩⟩
  · obtain ⟨⟨⟩, place, blanks, brace⟩ := mem_ways_bind.mp brace
    obtain ⟨gap, rest, rfl, blank, ⟨⟩⟩ := mem_ways_run blanks
    obtain ⟨⟨⟩, place, brace, more⟩ := mem_ways_bind.mp brace
    obtain ⟨c, rest, rfl, same, ⟨⟩⟩ := mem_ways_one.mp brace
    obtain rfl : c = '{' := by simpa using same
    have other : isIdentifier '{' = false := by decide
    exact ⟨gap, ['{'], rest, rfl, blank, .inl (by simpa using other), .inl rfl⟩

section Reexports

variable {name : Identifier} {line : ImportLine} {before rest : Text}

theorem reexported_quiet_wordless {stretch : Text} (wordless : ∀ c ∈ stretch, isIdentifier c = false) :
    (Usage.reexported.pattern name.text).Quiet before stretch rest :=
  wordless_quiet Identifier.exportWord.nonempty Identifier.exportWord.proper wordless

/-- In a line neither a brace nor `default` comes right behind `export`. -/
theorem not_adjoins_export {locals : List Text} {lead token : Text}
    (kind : token = ['{'] ∨ token = Identifier.defaultWord.text) :
    ¬ Adjoins locals (lead ++ Identifier.exportWord.text) token := by
  have unlike : ∀ first ∈ Identifier.asWord.text :: openers,
      ¬ Identifier.exportWord.text <:+ first := by decide
  rintro (opens | closes | ⟨first, -⟩)
  · exact unlike _ (List.mem_cons_of_mem _ opens) (List.suffix_append lead _)
  · rcases kind with rfl | rfl <;> exact absurd closes (by decide)
  · exact unlike _ (by rw [first]; exact List.mem_cons_self) (List.suffix_append lead _)

theorem LineText.reexported_head (written : LineText line) :
    (Usage.reexported.pattern name.text).Quiet before (written.head ++ [written.quote.char]) rest := by
  refine Quiet.of_places fun left right split => List.eq_nil_iff_forall_not_mem.mpr fun way member => ?_
  obtain ⟨gap, token, others, same, blank, apart, kind⟩ := mem_ways_reexported member
  have tokenPlain : ∀ c ∈ token, isTokenChar c = true := by
    rcases kind with rfl | ⟨-, rfl⟩
    · exact List.all_eq_true.mp (by decide)
    · exact fun c inside => Identifier.defaultWord.isToken.2 c inside
  have plain : ∀ c ∈ Identifier.exportWord.text ++ gap ++ token, isQuote c = false := by
    intro c inside
    simp only [List.mem_append] at inside
    rcases inside with (part | space) | own
    · exact isQuote_of_clause (.inr (Identifier.exportWord.isToken.2 c part))
    · exact isQuote_of_clause (.inl (blank c space))
    · exact isQuote_of_clause (.inr (tokenPlain c own))
  have taken : right ++ written.quote.char :: rest =
      Identifier.exportWord.text ++ gap ++ token ++ others := by simpa using same
  obtain ⟨behind, rfl, rfl⟩ := exists_of_append_quote taken plain written.quote.isQuote_char
  have brace : isIdentifier '{' = false := by decide
  have first : Apart (left ++ Identifier.exportWord.text) (gap ++ (token ++ behind)) := by
    by_cases empty : gap = []
    · obtain rfl := kind.resolve_right fun ⟨nonempty, _⟩ => nonempty empty
      exact .inr (by simpa [empty] using brace)
    · exact .of_blank blank empty
  have second : Apart token behind := by
    cases behind with
    | nil => exact .inr rfl
    | cons c behind => simpa [Apart] using apart
  have single : lex token = [token] := by
    rcases kind with rfl | ⟨-, rfl⟩
    · exact lex_mark (by decide) brace
    · exact lex_identifier _
  -- So `export` ends a token of the line, and the brace or `default` is the next one.
  obtain ⟨tokens, lead, tokensOf⟩ := exists_adjacent Identifier.exportWord blank first second single
  have whole : lex written.head = _ := (congrArg lex (by simpa using split)).trans tokensOf
  have chain := line.adjoin
  rw [← written.written.lex_eq, whole] at chain
  have adjacent := (List.isChain_cons_cons.mp (List.isChain_append.mp chain).2.1).1
  exact not_adjoins_export (kind.imp id And.right) adjacent

/-- The characters behind `export`, and those that end a specifier. -/
def isExportEnd (c : Char) : Bool := isBlank c || c == '{' || isQuote c

theorem isExportEnd_of_isIdentifier {c : Char} (part : isIdentifier c = true) : isExportEnd c = false := by
  have brace : isIdentifier '{' = false := by decide
  have other : c ≠ '{' := by
    rintro rfl
    simp [brace] at part
  simp [isExportEnd, isBlank_of_isIdentifier part, other,
    isQuote_of_clause (.inr (isTokenChar_of_isIdentifier part))]

/-- A specifier has neither blanks nor braces. -/
theorem reexported_specifier (named : Specifier) (quote : Quote) :
    (Usage.reexported.pattern name.text).Quiet before (named.text ++ [quote.char]) rest := by
  have marked : isExportEnd quote.char = true := by simp [isExportEnd, quote.isQuote_char]
  refine Quiet.of_mark ?_ (fun c inside => ?_) marked
  · intro before after matched
    obtain ⟨way, member⟩ := List.exists_mem_of_ne_nil _ matched
    obtain ⟨gap, token, others, rfl, blank, -, kind⟩ := mem_ways_reexported member
    have plain : ∀ c ∈ Identifier.exportWord.text, isExportEnd c = false := fun c part =>
      isExportEnd_of_isIdentifier (Identifier.exportWord.proper c part)
    cases gap with
    | nil =>
        obtain rfl := kind.resolve_right fun ⟨nonempty, _⟩ => nonempty rfl
        refine ⟨_, '{', others, rfl, plain, rfl, ?_⟩
        cases quote <;> decide
    | cons b gap =>
        have space := blank b List.mem_cons_self
        refine ⟨_, b, gap ++ (token ++ others), rfl, plain, by simp [isExportEnd, space], ?_⟩
        rintro rfl
        cases quote <;> exact absurd space (by decide)
  · rcases named.proper c inside with letter | rfl | rfl | rfl
    · exact isExportEnd_of_isIdentifier (isIdentifier_of_isWord letter)
    all_goals decide

end Reexports

section Marks

/-- Every match takes the character. -/
def Needs {α : Type} (p : Pattern α) (c : Char) : Prop :=
  ∀ before after found, found ∈ p.ways (.between before after) → c ∈ after

namespace Needs

variable {α β : Type} {p : Pattern α} {next : α → Pattern β} {c : Char}

theorem char (c : Char) : Needs (char c) c := by
  intro before after found member
  obtain ⟨d, rest, rfl, same, -⟩ := mem_ways_one.mp member
  obtain rfl : d = c := by simpa using same
  exact List.mem_cons_self

theorem first (needs : Needs p c) : Needs (p >>= next) c := by
  intro before after found member
  obtain ⟨a, place, start, -⟩ := mem_ways_bind.mp member
  exact needs before after _ start

theorem later (advances : p.Advances) (needs : ∀ a, Needs (next a) c) : Needs (p >>= next) c := by
  intro before after found member
  obtain ⟨a, place, start, finish⟩ := mem_ways_bind.mp member
  obtain ⟨taken, rest, rfl, moved⟩ := advances before after _ start
  obtain rfl : place = .between (before ++ taken) rest := moved
  exact List.mem_append_right taken (needs a _ _ _ finish)

theorem headed : Needs (headed (· == c) p) c := by
  intro before after found member
  obtain ⟨start, -⟩ := mem_ways_headed.mp member
  cases after with
  | nil => simp at start
  | cons d after =>
      obtain rfl : d = c := by simpa using start
      exact List.mem_cons_self

theorem quiet {before stretch rest : Text} (needs : Needs p c) (absent : c ∉ stretch ++ rest) :
    p.Quiet before stretch rest := by
  rintro left d right rfl
  refine List.eq_nil_iff_forall_not_mem.mpr fun way member => absent ?_
  have inside := needs _ _ _ member
  simp only [List.mem_append, List.mem_cons] at inside ⊢
  tauto

end Needs

theorem standalone_advances (name : Text) : (standalone name).Advances := by
  intro before after found member
  obtain ⟨-, rest, rfl, -, rfl⟩ := mem_ways_standalone.mp member
  exact ⟨name, rest, rfl, rfl⟩

theorem anyOf_advances {α : Type} {patterns : List (Pattern α)} (each : ∀ p ∈ patterns, p.Advances) :
    (anyOf patterns).Advances := by
  intro before after found member
  obtain ⟨p, listed, way⟩ := mem_ways_anyOf.mp member
  exact each p listed before after found way

/-- The character without which a use of the shape cannot be. -/
def Usage.mark? : Usage → Option Char
  | call | routeArgument => some '('
  | assignmentTarget | assignmentSource | destructuring => some '='
  | _ => none

theorem Usage.needs_mark {usage : Usage} {c : Char} (name : Text) (marked : usage.mark? = some c) :
    Needs (usage.pattern name) c := by
  have named := standalone_advances name
  cases usage with
  | call =>
      obtain rfl : '(' = c := by simpa [mark?] using marked
      exact .later named fun _ => .later (.run _) fun _ => .first (.char _)
  | assignmentTarget =>
      obtain rfl : '=' = c := by simpa [mark?] using marked
      exact .later named fun _ => .later (.run _) fun _ => .first (.char _)
  | assignmentSource =>
      obtain rfl : '=' = c := by simpa [mark?] using marked
      exact .headed
  | destructuring =>
      obtain rfl : '=' = c := by simpa [mark?] using marked
      exact .later (.one _) fun _ => .later (.run _) fun _ => .first (.char _)
  | routeArgument =>
      obtain rfl : '(' = c := by simpa [mark?] using marked
      have methods : (anyOf (routeMethods.map chars)).Advances := anyOf_advances fun p listed => by
        obtain ⟨method, -, rfl⟩ := List.mem_map.mp listed
        exact .chars method
      exact .later (.one _) fun _ => .later methods fun _ => .later (.run _) fun _ => .first (.char _)
  | member | typePosition | returned | awaited | reexported => simp [mark?] at marked

/-- The characters of import lines. -/
def isLineChar (c : Char) : Bool :=
  isBlank c || isTokenChar c || isQuote c || c == '.' || c == '/' || c == '-' || c == ';'

theorem Specifier.isLineChar_of_mem (named : Specifier) {c : Char} (inside : c ∈ named.text) :
    isLineChar c = true := by
  rcases named.proper c inside with letter | rfl | rfl | rfl
  · simp [isLineChar, isTokenChar_of_isIdentifier (isIdentifier_of_isWord letter)]
  all_goals decide

theorem LineText.isLineChar_of_mem {line : ImportLine} (written : LineText line) {c : Char}
    (inside : c ∈ written.core) : isLineChar c = true := by
  rw [written.core_eq] at inside
  simp only [List.mem_append, List.mem_singleton] at inside
  rcases inside with (head | rfl) | named | rfl
  · rcases written.written.mem c head with blank | part
    · simp [isLineChar, blank]
    · simp [isLineChar, part]
  · simp [isLineChar, written.quote.isQuote_char]
  · exact line.specifier.isLineChar_of_mem named
  · simp [isLineChar, written.quote.isQuote_char]

theorem Follow.isLineChar_of_mem {lines : List ImportLine} {text : Text} (follow : Follow lines text) :
    ∀ c ∈ text, isLineChar c = true := by
  induction follow with
  | last => exact List.all_eq_true.mp (by decide)
  | feed => exact List.all_eq_true.mp (by decide)
  | next written follow ih =>
      intro c inside
      simp only [List.mem_cons, List.mem_append] at inside
      rcases inside with rfl | rfl | core | later
      · decide
      · decide
      · exact written.isLineChar_of_mem core
      · exact ih c later

end Marks

/-- The words that announce a use of the shape. -/
def Usage.heralds : Usage → List Text
  | typePosition => typeWords
  | returned => ["return".toList]
  | awaited => ["await".toList]
  | _ => []

/-- How many uses of the shape a line has. -/
def Usage.countIn (usage : Usage) (name : Text) (line : ImportLine) : Nat :=
  if usage = member then dotted name line.specifier.text else heralded usage.heralds name line.tokens

theorem Usage.heralds_proper (usage : Usage) : Heralds usage.heralds := by
  cases usage with
  | typePosition => exact typeWords_heralds
  | returned => exact keyword_heralds "return" (by decide) (List.all_eq_true.mp (by decide))
  | awaited => exact keyword_heralds "await" (by decide) (List.all_eq_true.mp (by decide))
  | _ => exact ⟨by simp [heralds], by simp [heralds]⟩

theorem Usage.matches_heralded {usage : Usage} (name : Text) (announced : usage.heralds ≠ []) :
    MatchesHeralded usage.heralds name (usage.pattern name) := by
  cases usage with
  | typePosition => exact typePosition_matches name
  | returned => exact keyword_matches "return" name (by decide) (List.all_eq_true.mp (by decide))
  | awaited => exact keyword_matches "await" name (by decide) (List.all_eq_true.mp (by decide))
  | _ => exact absurd rfl announced

theorem heralded_nil (name : Text) (tokens : List Text) : heralded [] name tokens = 0 := by
  induction tokens with
  | nil => rfl
  | cons first tokens ih => rwa [heralded_pass (by simp)]

section Counts

variable {name : Identifier} {p : Pattern Nat} {line : ImportLine} {lines : List ImportLine} {text : Text}

/-- A count that each line adds to is the sum over the lines. -/
theorem Follow.count {per : ImportLine → Nat}
    (passes : ∀ before stretch rest, (∀ c ∈ stretch, isIdentifier c = false) →
      (∀ c ∈ stretch, Usage.typeMark c = false) → p.Quiet before stretch rest)
    (step : ∀ line (written : LineText line) before rest, before.getLast?.any isIdentifier = false →
      (p.allBetween before (written.core ++ rest)).length =
        per line + (p.allBetween (before ++ written.core) rest).length)
    (follow : Follow lines text) (before : Text) :
    (p.allBetween before text).length = (lines.map per).sum := by
  have plain : ∀ c ∈ [';', '\n'], Usage.typeMark c = false := by simp [Usage.typeMark]
  have ends : ∀ before rest stretch, stretch ⊆ [';', '\n'] → p.Quiet before stretch rest :=
    fun before rest stretch among => passes before stretch rest
      (fun c inside => lineEnd_wordless c (among inside)) fun c inside => plain c (among inside)
  induction follow generalizing before with
  | last => simp [allBetween_eq_nil (ends before [] [';'] (by simp))]
  | feed => simp [allBetween_eq_nil (ends before [] [';', '\n'] (by simp))]
  | @next line lines rest written follow ih =>
      have other : isIdentifier '\n' = false := by decide
      have passed := allBetween_pass (ends before (written.core ++ rest) [';', '\n'] (by simp))
      have own := step line written (before ++ [';', '\n']) rest (by simpa using other)
      have later := ih (before ++ [';', '\n'] ++ written.core)
      rw [List.map_cons, List.sum_cons, ← later, ← own, ← passed]
      rfl

theorem typeMark_of_isLineChar {c : Char} (own : isLineChar c = true) : Usage.typeMark c = false := by
  refine Bool.eq_false_iff.mpr fun marked => ?_
  simp only [Usage.typeMark, Bool.or_eq_true, beq_iff_eq] at marked
  rcases marked with ((rfl | rfl) | rfl) | rfl <;> exact absurd own (by decide)

/-- A line has the matches of its tokens. -/
theorem MatchesHeralded.count_line {words : List Text} (shape : MatchesHeralded words name.text p)
    (proper : Heralds words) (written : LineText line) (before rest : Text)
    (apart : before.getLast?.any isIdentifier = false) :
    (p.allBetween before (written.core ++ rest)).length =
      heralded words name.text line.tokens + (p.allBetween (before ++ written.core) rest).length := by
  have plain : ∀ c ∈ written.core, Usage.typeMark c = false := fun c inside =>
    typeMark_of_isLineChar (written.isLineChar_of_mem inside)
  have core := written.core_eq
  have headPlain : ∀ c ∈ written.head, Usage.typeMark c = false := fun c inside =>
    plain c (by simp [core, inside])
  have ends : isBlank written.quote.char = false ∧ isIdentifier written.quote.char = false := by
    cases written.quote <;> decide
  have stop : ∀ c, (written.quote.char :: line.specifier.text ++ [written.quote.char] ++ rest).head? =
      some c → isBlank c = false ∧ isIdentifier c = false := by
    intro c next
    obtain rfl : written.quote.char = c := by simpa using next
    exact ends
  have head := shape.count proper before
    (written.quote.char :: line.specifier.text ++ [written.quote.char] ++ rest)
    headPlain stop (.inl apart)
  have quiet : p.Quiet (before ++ written.head)
      (written.quote.char :: line.specifier.text ++ [written.quote.char]) rest := by
    refine shape.quiet_solid proper (fun c inside => ?_) (fun c inside => plain c (by simp_all)) ends
    rcases List.mem_cons.mp inside with rfl | named
    · exact ends.1
    · exact line.specifier.isBlank_of_mem c named
  rw [allBetween_pass quiet, written.written.lex_eq] at head
  rw [core]
  simp only [List.append_assoc, List.cons_append, List.nil_append] at head ⊢
  exact head

theorem quote_wordless (quote : Quote) : ∀ c ∈ [quote.char], isIdentifier c = false := by
  have marks : isIdentifier '\'' = false ∧ isIdentifier '"' = false := by decide
  cases quote <;> simp [Quote.char, marks]

/-- A line has the members of its specifier. -/
theorem member_line (name : Identifier) (written : LineText line) (before rest : Text) :
    ((Usage.member.pattern name.text).allBetween before (written.core ++ rest)).length =
      dotted name.text line.specifier.text +
        ((Usage.member.pattern name.text).allBetween (before ++ written.core) rest).length := by
  have head : (Usage.member.pattern name.text).Quiet before (written.head ++ [written.quote.char])
      (line.specifier.text ++ ([written.quote.char] ++ rest)) :=
    member_quiet_head written.written.mem written.quote
  have free : (before ++ (written.head ++ [written.quote.char])).getLast?.any
      (fun c => isIdentifier c || c == '.') = false := by
    cases quote : written.quote <;> simp [Quote.char] <;> decide
  have ends : EndsPiece ([written.quote.char] ++ rest) := by
    intro c next
    obtain rfl : written.quote.char = c := by simpa using next
    cases written.quote <;> decide
  have parts : ∀ c ∈ line.specifier.text, isPiece c = true ∨ isSeparator c = true := by
    intro c inside
    rcases line.specifier.proper c inside with letter | rfl | rfl | rfl
    · exact .inl (by simp [isPiece, letter])
    · exact .inl rfl
    · exact .inr rfl
    · exact .inr rfl
  have pieces := member_pieces name _ parts free ends
  have last : (Usage.member.pattern name.text).Quiet
      (before ++ (written.head ++ [written.quote.char]) ++ line.specifier.text) [written.quote.char] rest :=
    member_quiet_wordless (quote_wordless written.quote)
  rw [← allBetween_pass head, allBetween_pass last] at pieces
  rw [written.core_eq]
  simpa only [List.append_assoc] using pieces

theorem reexported_line (name : Identifier) (written : LineText line) (before rest : Text) :
    ((Usage.reexported.pattern name.text).allBetween before (written.core ++ rest)).length =
      0 + ((Usage.reexported.pattern name.text).allBetween (before ++ written.core) rest).length := by
  have head : (Usage.reexported.pattern name.text).Quiet before (written.head ++ [written.quote.char])
      (line.specifier.text ++ [written.quote.char] ++ rest) := written.reexported_head
  have named : (Usage.reexported.pattern name.text).Quiet
      (before ++ (written.head ++ [written.quote.char])) (line.specifier.text ++ [written.quote.char])
      rest := reexported_specifier line.specifier written.quote
  have passed := (allBetween_pass head).trans (allBetween_pass named)
  rw [written.core_eq, Nat.zero_add]
  simp only [List.append_assoc] at passed ⊢
  rw [passed]

theorem Needs.count_follow {c : Char} (needs : Needs p c) (other : isLineChar c = false)
    (follow : Follow lines text) (before : Text) : (p.allBetween before text).length = 0 := by
  have absent : c ∉ text ++ [] := by
    intro inside
    rw [List.append_nil] at inside
    simp [follow.isLineChar_of_mem c inside] at other
  rw [allBetween_eq_nil (needs.quiet absent)]
  rfl

theorem Usage.sum_countIn {usage : Usage} (name : Text) (lines : List ImportLine)
    (silent : usage ≠ member ∧ usage.heralds = []) : (lines.map (usage.countIn name)).sum = 0 := by
  have none : ∀ line ∈ lines, usage.countIn name line = 0 := fun line _ => by
    rw [countIn, if_neg silent.1, silent.2, heralded_nil]
  rw [List.map_congr_left none]
  simp

/-- The uses of a shape are those of the lines. -/
theorem Usage.count_follow (usage : Usage) (name : Identifier) (follow : Follow lines text)
    (before : Text) : ((usage.pattern name.text).allBetween before text).length =
      (lines.map (usage.countIn name.text)).sum := by
  have announced : usage.heralds ≠ [] → ((usage.pattern name.text).allBetween before text).length =
      (lines.map fun line => heralded usage.heralds name.text line.tokens).sum := by
    intro heralds
    have shape := matches_heralded name.text heralds
    exact follow.count (fun _ _ _ => shape.quiet_wordless usage.heralds_proper)
      (fun _ => shape.count_line usage.heralds_proper) before
  have marked : ∀ c, usage.mark? = some c → isLineChar c = false →
      ((usage.pattern name.text).allBetween before text).length = 0 := fun c own other =>
    (usage.needs_mark name.text own).count_follow other follow before
  cases usage with
  | member =>
      exact follow.count (fun _ _ _ wordless _ => member_quiet_wordless wordless)
        (fun _ written before rest _ => member_line name written before rest) before
  | typePosition | returned | awaited => exact announced (by decide)
  | reexported =>
      rw [sum_countIn name.text lines (by decide)]
      have counted := follow.count (fun _ _ _ wordless _ => reexported_quiet_wordless wordless)
        (fun _ written before rest _ => reexported_line name written before rest) before
      simpa using counted
  | call | routeArgument =>
      rw [sum_countIn name.text lines (by decide)]
      exact marked '(' rfl (by decide)
  | assignmentTarget | assignmentSource | destructuring =>
      rw [sum_countIn name.text lines (by decide)]
      exact marked '=' rfl (by decide)

end Counts

end ImportAudit.Script
