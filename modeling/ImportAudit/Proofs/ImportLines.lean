import ImportAudit.Proofs.Lexing
import ImportAudit.Proofs.Mentions

/-! Texts that hold only imports. A line is given by its parts, and its text may have any blanks between
the tokens. Whatever way the search prefers, it takes a whole line up to the closing quote, and the
clause that it reads has the tokens of the line's clause; only a default called `type` may be taken for
a modifier. -/
namespace ImportAudit.Script
open Pattern Text

/-- The names that a selection binds. -/
def Selection.locals : Selection → List Text
  | wholeModule name => [name.text]
  | named items _ => items.map fun item => (item.alias?.getD item.name).text

/-- A clause whose default may have any name. -/
inductive LineClause
  | default (name : Identifier)
  | selected (selection : Selection)
  | both (name : Identifier) (selection : Selection)

namespace LineClause

def tokens : LineClause → List Text
  | default name => [name.text]
  | selected selection => selection.tokens
  | both name selection => name.text :: [','] :: selection.tokens

def locals : LineClause → List Text
  | default name => [name.text]
  | selected selection => selection.locals
  | both name selection => name.text :: selection.locals

theorem tokens_ne_nil (clause : LineClause) : clause.tokens ≠ [] := by
  cases clause with
  | default => simp [tokens]
  | selected selection => exact selection.tokens_ne_nil
  | both => simp [tokens]

theorem isToken_of_mem {clause : LineClause} {token : Text} (member : token ∈ clause.tokens) :
    IsToken token := by
  have comma : IsToken [','] := isToken_singleton (by decide)
  cases clause with
  | default name =>
      obtain rfl : token = name.text := by simpa [tokens] using member
      exact name.isToken
  | selected selection => exact Selection.isToken_of_mem member
  | both name selection =>
      simp only [tokens, List.mem_cons] at member
      rcases member with rfl | rfl | listed
      exacts [name.isToken, comma, Selection.isToken_of_mem listed]

theorem solid_head (clause : LineClause) {body : Text}
    (starts : ∀ c, body.head? = some c → isBlank c = false)
    (shape : lex body = clause.tokens ++ [Identifier.fromWord.text]) (rest : Text) :
    ∀ c, (body ++ rest).head? = some c → isBlank c = false := by
  intro c next
  have nonempty : body ≠ [] := by
    intro empty
    simp [empty, lex] at shape
  rw [List.head?_append_of_ne_nil _ nonempty] at next
  exact starts c next

/-- The tokens of the clause are those of a text, where `type` may have been taken away. -/
def Reads (clause : LineClause) (names : Text) : Prop :=
  lex names = clause.tokens ∨ clause.tokens = Identifier.typeWord.text :: lex names

end LineClause

/-- `import clause from 'specifier';` or `import 'specifier';`. -/
inductive ImportLine
  | clause (typeOnly : Bool) (names : LineClause) (specifier : Specifier)
  | effect (specifier : Specifier)

namespace ImportLine

def specifier : ImportLine → Specifier
  | clause _ _ specifier | effect specifier => specifier

def clause? : ImportLine → Option LineClause
  | clause _ names _ => some names
  | effect _ => none

/-- The names that a line binds. -/
def locals (line : ImportLine) : List Text := line.clause?.elim [] LineClause.locals

/-- The tokens before the specifier. -/
def tokens : ImportLine → List Text
  | clause typeOnly names _ =>
      Identifier.importWord.text :: (modifierTokens typeOnly ++ (names.tokens ++
        [Identifier.fromWord.text]))
  | effect _ => [Identifier.importWord.text]

/-- A text of the line before its specifier. -/
inductive HeadText : ImportLine → Text → Prop
  | clause {typeOnly : Bool} {names : LineClause} {specifier : Specifier} {lead modifier body : Text} :
      IsGap lead → ModifierText typeOnly modifier →
      (∀ c, body.head? = some c → isBlank c = false) →
      lex body = names.tokens ++ [Identifier.fromWord.text] →
      HeadText (.clause typeOnly names specifier)
        (Identifier.importWord.text ++ (lead ++ (modifier ++ body)))
  | effect {specifier : Specifier} {gap : Text} : (∀ c ∈ gap, isBlank c = true) →
      HeadText (.effect specifier) (Identifier.importWord.text ++ gap)

end ImportLine

/-- What a text of a line has apart from its specifier. -/
structure LineText (line : ImportLine) where
  head : Text
  quote : Quote
  written : line.HeadText head

/-- The text of the line up to its closing quote. -/
def LineText.core {line : ImportLine} (text : LineText line) : Text :=
  text.head ++ text.quote.char :: (line.specifier.text ++ [text.quote.char])

/-- What comes behind the closing quote of a line: a semicolon, and each further line on a line of its
own. -/
inductive Follow : List ImportLine → Text → Prop
  | last : Follow [] [';']
  | feed : Follow [] [';', '\n']
  | next {line : ImportLine} {lines : List ImportLine} {rest : Text} (text : LineText line) :
      Follow lines rest → Follow (line :: lines) (';' :: '\n' :: (text.core ++ rest))

/-- A text that holds the lines and nothing else. -/
inductive Writes : List ImportLine → Text → Prop
  | none : Writes [] []
  | lines {line : ImportLine} {later : List ImportLine} {rest : Text} (text : LineText line) :
      Follow later rest → Writes (line :: later) (text.core ++ rest)

theorem ModifierText.lex_append {typeOnly : Bool} {modifier : Text}
    (written : ModifierText typeOnly modifier) (body : Text) :
    lex (modifier ++ body) = modifierTokens typeOnly ++ lex body := by
  cases written with
  | none => rfl
  | type gap =>
      rw [List.append_assoc, Text.lex_append (.of_blank gap.2 gap.1), lex_identifier,
        lex_blank_append gap.2]
      rfl

namespace ImportLine.HeadText

variable {line : ImportLine} {head : Text}

theorem lex_eq (written : line.HeadText head) : lex head = line.tokens := by
  cases written with
  | clause lead modifier solid body =>
      rw [Text.lex_append (.of_blank lead.2 lead.1), lex_identifier, lex_blank_append lead.2,
        modifier.lex_append, body]
      rfl
  | effect blank =>
      rw [lex_append_blank blank, lex_identifier]
      rfl

end ImportLine.HeadText

theorem ImportLine.isToken_of_mem {line : ImportLine} {token : Text} (member : token ∈ line.tokens) :
    IsToken token := by
  cases line with
  | clause typeOnly names specifier =>
      simp only [tokens, modifierTokens, List.mem_cons, List.mem_append, List.not_mem_nil,
        or_false] at member
      rcases member with rfl | modifier | listed | rfl
      · exact Identifier.importWord.isToken
      · cases typeOnly with
        | false => simp at modifier
        | true =>
            obtain rfl : token = Identifier.typeWord.text := by simpa using modifier
            exact Identifier.typeWord.isToken
      · exact LineClause.isToken_of_mem listed
      · exact Identifier.fromWord.isToken
  | effect specifier =>
      obtain rfl : token = Identifier.importWord.text := by simpa [tokens] using member
      exact Identifier.importWord.isToken

/-- Tokens and blanks only. -/
theorem mem_of_tokens {text : Text} {c : Char} (tokens : ∀ token ∈ lex text, IsToken token)
    (member : c ∈ text) : isBlank c = true ∨ isTokenChar c = true := by
  rcases mem_of_lex member with blank | ⟨token, listed, inside⟩
  · exact .inl blank
  · exact .inr ((tokens token listed).2 c inside)

theorem ImportLine.HeadText.mem {line : ImportLine} {head : Text} (written : line.HeadText head) :
    ∀ c ∈ head, isBlank c = true ∨ isTokenChar c = true := fun _ =>
  mem_of_tokens fun _ listed => ImportLine.isToken_of_mem (written.lex_eq ▸ listed)

theorem isClauseChar_of_clause {c : Char} (part : isBlank c = true ∨ isTokenChar c = true) :
    isClauseChar c = true := by
  simp only [isTokenChar, isClauseChar, Bool.or_eq_true] at part ⊢
  tauto

/-- From the clause on. -/
def clausePart : Pattern ClauseImport := spanOf clauseText >>= afterClause

theorem mem_ways_clausePart {before after : Text} {found : ClauseImport × Cursor}
    (way : found ∈ clausePart.ways (.between before after)) :
    ∃ names lead trail quote inner rest, (∀ c ∈ names, isClauseChar c = true) ∧
      (∀ c ∈ lead, isBlank c = true) ∧ (∀ c ∈ trail, isBlank c = true) ∧ isQuote quote = true ∧
      (∀ c ∈ inner, isInner c = true) ∧
      after = names ++ (lead ++ (Identifier.fromWord.text ++ trail)) ++ quote :: (inner ++ quote :: rest) ∧
      found.1.clause = ⟨before.length, (before ++ names).length⟩ ∧
      found.2 = .between (before ++ (names ++ (lead ++ (Identifier.fromWord.text ++ trail)) ++
        quote :: (inner ++ [quote]))) rest := by
  obtain ⟨span, place, middle, way⟩ := mem_ways_bind.mp way
  rw [ways_spanOf, List.mem_map] at middle
  obtain ⟨⟨⟨⟩, place⟩, middle, ⟨⟩⟩ := middle
  obtain ⟨names, rest, rfl, proper, ⟨⟩⟩ := mem_ways_clauseText middle
  obtain ⟨lead, trail, quote, inner, rest, leadBlank, trailBlank, quoted, all, rfl, clause, moved⟩ :=
    mem_ways_afterClause way
  exact ⟨names, lead, trail, quote, inner, rest, proper, leadBlank, trailBlank, quoted, all, by simp,
    clause, by simp [moved]⟩

/-- The text before the first quote, and the text between it and the next, are determined. -/
theorem quoted_inj {head head' inner inner' rest rest' : Text} {quote quote' : Char}
    (same : head ++ quote :: (inner ++ quote :: rest) = head' ++ quote' :: (inner' ++ quote' :: rest'))
    (plain : ∀ c ∈ head, isQuote c = false) (plain' : ∀ c ∈ head', isQuote c = false)
    (quoted : isQuote quote = true) (quoted' : isQuote quote' = true)
    (all : ∀ c ∈ inner, isInner c = true) (all' : ∀ c ∈ inner', isInner c = true) :
    head = head' ∧ quote = quote' ∧ inner = inner' ∧ rest = rest' := by
  obtain ⟨rfl, rfl, later⟩ := append_cons_inj same plain plain' quoted quoted'
  obtain ⟨rfl, -, rfl⟩ := append_cons_inj later (fun c member => isQuote_of_isInner (all c member))
    (fun c member => isQuote_of_isInner (all' c member)) quoted quoted
  exact ⟨rfl, rfl, rfl, rfl⟩

/-- The characters before the first quote of an import. -/
theorem clauseHead_plain {names lead trail : Text} (proper : ∀ c ∈ names, isClauseChar c = true)
    (leadBlank : ∀ c ∈ lead, isBlank c = true) (trailBlank : ∀ c ∈ trail, isBlank c = true) :
    ∀ c ∈ names ++ (lead ++ (Identifier.fromWord.text ++ trail)), isQuote c = false := by
  intro c member
  simp only [List.mem_append] at member
  refine isQuote_of_clause ?_
  rcases member with inside | blank | word | blank
  · have part := proper c inside
    simp only [isClauseChar, isTokenChar, Bool.or_eq_true] at part ⊢
    tauto
  · exact .inl (leadBlank c blank)
  · exact .inr (Identifier.fromWord.isToken.2 c word)
  · exact .inl (trailBlank c blank)

section Clause

variable {body before rest : Text} {tokens : List Text} {named : Specifier} {quote : Quote}

/-- However the clause and what follows it are matched, the match ends with the specifier, and the
clause has the tokens before `from`. -/
theorem clausePart_reads {found : ClauseImport × Cursor} (shape : lex body = tokens ++ [Identifier.fromWord.text])
    (parts : ∀ token ∈ tokens, IsToken token)
    (way : found ∈ clausePart.ways (.between before
      (body ++ quote.char :: (named.text ++ quote.char :: rest)))) :
    ∃ names after, body = names ++ after ∧ lex names = tokens ∧
      found.1.clause = ⟨before.length, (before ++ names).length⟩ ∧
      found.2 = .between (before ++ (body ++ quote.char :: (named.text ++ [quote.char]))) rest := by
  obtain ⟨names, lead, trail, quote', inner, rest', proper, leadBlank, trailBlank, quoted, all, same,
    clause, moved⟩ := mem_ways_clausePart way
  have plain : ∀ c ∈ body, isQuote c = false := fun c member =>
    isQuote_of_clause (mem_of_tokens (fun token listed => by
      rw [shape, List.mem_append, List.mem_singleton] at listed
      rcases listed with listed | rfl
      · exact parts token listed
      · exact Identifier.fromWord.isToken) member)
  obtain ⟨rfl, rfl, rfl, rfl⟩ := quoted_inj same plain (clauseHead_plain proper leadBlank trailBlank)
    quote.isQuote_char quoted named.isInner_of_mem all
  refine ⟨names, _, rfl, ?_, clause, moved⟩
  have stripped : lex (names ++ lead) = tokens :=
    lex_of_last Identifier.fromWord trailBlank (by simpa using shape)
  rwa [lex_append_blank leadBlank] at stripped

/-- A clause and what follows it can be matched. -/
theorem clausePart_reaches (before : Text) (named : Specifier) (quote : Quote) (rest : Text)
    (shape : lex body = tokens ++ [Identifier.fromWord.text])
    (parts : ∀ token ∈ tokens, IsToken token) (nonempty : tokens ≠ []) :
    ∃ place, clausePart.Reaches
      (.between before (body ++ quote.char :: (named.text ++ quote.char :: rest))) place := by
  obtain ⟨left, right, rfl, own, last, apart⟩ := exists_of_lex_append shape
  obtain ⟨gap, trail, rfl, blank, none, -⟩ := exists_of_lex_cons last
  obtain ⟨solid, gap', rfl, blank', ends⟩ := exists_solid left
  have some : solid ≠ [] := by
    rintro rfl
    rw [List.nil_append, lex_of_blank blank'] at own
    exact nonempty own.symm
  have all : ∀ c ∈ solid, isClauseChar c = true := fun c member =>
    isClauseChar_of_clause (mem_of_tokens (fun token listed => parts token (own ▸ listed))
      (List.mem_append_left gap' member))
  have blanks : ∀ c ∈ gap' ++ gap, isBlank c = true := List.forall_mem_append.mpr ⟨blank', blank⟩
  -- A word before `from` would run on into it.
  have edge : (before ++ solid ++ (gap' ++ gap)).getLast?.any isWord = false := by
    by_cases separated : gap' ++ gap = []
    · obtain ⟨rfl, rfl⟩ := List.append_eq_nil_iff.mp separated
      rcases apart with ended | started
      · rw [List.append_nil] at ended
        rw [List.append_nil, List.append_nil, List.getLast?_append_of_ne_nil _ some]
        exact any_isWord_of_isIdentifier ended
      · cases started
    · exact edge_of_gap _ ⟨separated, blanks⟩
  obtain ⟨skipped, others, ways, -⟩ := ways_clauseText before (gap' ++ gap ++ (Identifier.fromWord.text ++
    (trail ++ quote.char :: (named.text ++ quote.char :: rest)))) some all ends
    (fromFollows_of_blank blanks _)
  have clause : (spanOf clauseText).Reaches _ _ :=
    ⟨_, by rw [ways_spanOf, ways, List.map_append]; exact List.mem_append_right _ List.mem_cons_self⟩
  have whole := clause.bind fun span =>
    ⟨_, (afterClause_first _ span named quote rest blanks (isBlank_of_lex_eq_nil none) edge).mem⟩
  simp only [List.append_assoc] at whole ⊢
  exact ⟨_, whole⟩

end Clause

/-- A text that starts with plain characters and goes on with a quote is divided before the quote. -/
theorem exists_of_append_quote {word body rest rest' : Text} {quote : Char}
    (same : body ++ quote :: rest = word ++ rest') (plain : ∀ c ∈ word, isQuote c = false)
    (quoted : isQuote quote = true) :
    ∃ body', body = word ++ body' ∧ rest' = body' ++ quote :: rest := by
  refine exists_of_append same fun c next member => ?_
  obtain rfl : quote = c := by simpa using next
  simp [plain quote member] at quoted

theorem modifier_plain {typeOnly : Bool} {modifier : Text} (written : ModifierText typeOnly modifier) :
    ∀ c ∈ modifier, isQuote c = false := fun c member =>
  isQuote_of_clause ((Layout.mem_modifier written c member).imp id isTokenChar_of_isIdentifier)

/-- Without a modifier, the first name of a clause may be taken for one if it is `type`. -/
theorem modified_reads {clause : LineClause} {body before rest : Text} {named : Specifier}
    {quote : Quote} {found : ClauseImport × Cursor}
    (shape : lex body = clause.tokens ++ [Identifier.fromWord.text])
    (way : found ∈ (typeModifier >>= fun _ => clausePart).ways (.between before
      (body ++ quote.char :: (named.text ++ quote.char :: rest)))) :
    ∃ lead names after, body = lead ++ (names ++ after) ∧ clause.Reads names ∧
      found.1.clause = ⟨(before ++ lead).length, (before ++ lead ++ names).length⟩ ∧
      found.2 = .between (before ++ (body ++ quote.char :: (named.text ++ [quote.char]))) rest := by
  obtain ⟨⟨⟩, place, optional, way⟩ := mem_ways_bind.mp way
  obtain ⟨typeOnly, modifier, rest', modified, same, ⟨⟩⟩ := mem_ways_typeModifier.mp optional
  obtain ⟨body', rfl, rfl⟩ := exists_of_append_quote same (modifier_plain modified) quote.isQuote_char
  rw [modified.lex_append] at shape
  cases modified with
  | none =>
      obtain ⟨names, after, rfl, own, clause, moved⟩ :=
        clausePart_reads shape (fun _ => LineClause.isToken_of_mem) way
      exact ⟨[], names, after, rfl, .inl own, by simpa using clause, by simpa using moved⟩
  | @type gap separated =>
      obtain ⟨tokens, whole⟩ : ∃ tokens, clause.tokens = Identifier.typeWord.text :: tokens := by
        obtain ⟨first, tokens, split⟩ := List.exists_cons_of_ne_nil clause.tokens_ne_nil
        rw [split] at shape
        obtain ⟨rfl, -⟩ := List.cons_eq_cons.mp shape
        exact ⟨tokens, split⟩
      rw [whole] at shape
      have later : lex body' = tokens ++ [Identifier.fromWord.text] := (List.cons_eq_cons.mp shape).2
      obtain ⟨names, after, rfl, own, clause, moved⟩ := clausePart_reads later
        (fun token listed => LineClause.isToken_of_mem (whole ▸ List.mem_cons_of_mem _ listed)) way
      exact ⟨_, names, after, rfl, .inr (by rw [whole, own]), clause, by simpa using moved⟩

/-- Behind `import` and its gap the preferred match goes through the clause and the specifier. -/
theorem modified_first {typeOnly : Bool} {clause : LineClause} {modifier body : Text} (before : Text)
    (named : Specifier) (quote : Quote) (rest : Text) (written : ModifierText typeOnly modifier)
    (starts : ∀ c, body.head? = some c → isBlank c = false)
    (shape : lex body = clause.tokens ++ [Identifier.fromWord.text]) :
    ∃ found, (typeModifier >>= fun _ => clausePart).First
        (.between before (modifier ++ (body ++ quote.char :: (named.text ++ quote.char :: rest)))) found
        (.between (before ++ (modifier ++ (body ++ quote.char :: (named.text ++ [quote.char])))) rest) ∧
      ∃ lead names after, modifier ++ body = lead ++ (names ++ after) ∧ clause.Reads names ∧
        found.clause = ⟨(before ++ lead).length, (before ++ lead ++ names).length⟩ := by
  cases written with
  | none =>
      obtain ⟨place, reached⟩ := clausePart_reaches before named quote rest shape
        (fun _ => LineClause.isToken_of_mem) clause.tokens_ne_nil
      have optional := typeModifier_reaches before
        (body ++ quote.char :: (named.text ++ quote.char :: rest)) .none
      rw [List.append_nil] at optional
      obtain ⟨found, final, first⟩ := (optional.bind fun _ => reached).exists_first
      obtain ⟨lead, names, after, split, reads, span, moved⟩ := modified_reads shape first.mem
      obtain rfl : final = _ := moved
      exact ⟨found, first, lead, names, after, split, reads, span⟩
  | @type gap separated =>
      obtain ⟨place, reached⟩ := clausePart_reaches (before ++ (Identifier.typeWord.text ++ gap)) named
        quote rest shape (fun _ => LineClause.isToken_of_mem) clause.tokens_ne_nil
      obtain ⟨found, final, first⟩ := reached.exists_first
      obtain ⟨names, after, rfl, own, span, moved⟩ :=
        clausePart_reads shape (fun _ => LineClause.isToken_of_mem) first.mem
      obtain rfl : final = _ := moved
      refine ⟨found, ?_, _, names, after, rfl, .inl own, span⟩
      have taken := typeModifier_takes before separated (clause.solid_head starts shape
        (quote.char :: (named.text ++ quote.char :: rest)))
      have whole : (typeModifier >>= fun _ => clausePart).First _ _ _ := taken.bind first
      rwa [List.append_assoc before] at whole

/-- The preferred match at the start of a line with a clause is the whole line. -/
theorem LineText.clauseImport_first {typeOnly : Bool} {clause : LineClause} {specifier : Specifier}
    (text : LineText (.clause typeOnly clause specifier)) (before rest : Text)
    (edge : before.getLast?.any isWord = false) :
    ∃ found, clauseImport.First (.between before (text.core ++ rest)) found
        (.between (before ++ text.core) rest) ∧
      clause.Reads ((before ++ (text.core ++ rest)).slice found.clause) := by
  obtain ⟨head, quote, written⟩ := text
  cases written with
  | @clause _ _ _ lead modifier body separated modified starts shape =>
      obtain ⟨found, first, lead', names, after, split, reads, span⟩ := modified_first
        (before ++ Identifier.importWord.text ++ lead) specifier quote rest modified starts shape
      have letters : ∀ c ∈ Identifier.importWord.text, isWord c = true := List.all_eq_true.mp (by decide)
      have solid := modified.solid_head (clause.solid_head starts shape
        (quote.char :: (specifier.text ++ quote.char :: rest)))
      have whole : clauseImport.First _ _ _ :=
        (wordChars_first before Identifier.importWord _ letters edge).bind
          ((First.many1 _ separated.1 separated.2 solid).bind first)
      have slice := slice_append (before ++ Identifier.importWord.text ++ lead ++ lead') names
        (after ++ quote.char :: (specifier.text ++ quote.char :: rest))
      have text : Identifier.importWord.text ++ (lead ++ (modifier ++ (body ++ quote.char ::
          (specifier.text ++ quote.char :: rest)))) = Identifier.importWord.text ++ (lead ++ (lead' ++
            (names ++ (after ++ quote.char :: (specifier.text ++ quote.char :: rest))))) := by
        rw [← List.append_assoc modifier, split]
        simp
      refine ⟨found, by simpa [LineText.core, ImportLine.specifier] using whole, ?_⟩
      simp only [LineText.core, ImportLine.specifier, List.append_assoc, List.cons_append,
        List.nil_append] at slice text ⊢
      rw [text, span]
      simp only [List.append_assoc]
      rwa [slice]

/-- Behind the closing quote comes a semicolon, and then nothing or a line feed. -/
theorem Follow.lineEnd {lines : List ImportLine} {text : Text} (follow : Follow lines text) :
    ∃ rest, text = ';' :: rest ∧ ∀ c, rest.head? = some c → c = '\n' := by
  cases follow with
  | last => exact ⟨[], rfl, by simp⟩
  | feed => exact ⟨['\n'], rfl, by simp⟩
  | next => exact ⟨_, rfl, by simp⟩

theorem Specifier.isBlank_of_mem (named : Specifier) : ∀ c ∈ named.text, isBlank c = false := by
  intro c member
  rcases named.proper c member with word | rfl | rfl | rfl
  · exact isBlank_of_isIdentifier (by simp [isIdentifier, word])
  all_goals decide

/-- An import with a clause has a blank behind its first word, and `from` before its first quote. -/
theorem mem_ways_clauseImport {before after : Text} {found : ClauseImport × Cursor}
    (way : found ∈ clauseImport.ways (.between before after)) :
    ∃ b start trail quote rest, isBlank b = true ∧ (∀ c ∈ start, isQuote c = false) ∧
      (∀ c ∈ trail, isBlank c = true) ∧ isQuote quote = true ∧
      (Identifier.importWord.text ++ [b] <+: start ++ (Identifier.fromWord.text ++ trail)) ∧
      after = start ++ (Identifier.fromWord.text ++ trail) ++ quote :: rest := by
  obtain ⟨⟨⟩, place, started, way⟩ := mem_ways_bind.mp way
  obtain ⟨-, rest, rfl, ⟨⟩⟩ := mem_ways_wordChars.mp started
  obtain ⟨⟨⟩, place, spaced, way⟩ := mem_ways_bind.mp way
  obtain ⟨gap, rest, rfl, nonempty, blank, ⟨⟩⟩ := mem_ways_many1.mp spaced
  obtain ⟨⟨⟩, place, optional, way⟩ := mem_ways_bind.mp way
  obtain ⟨typeOnly, modifier, rest, written, rfl, ⟨⟩⟩ := mem_ways_typeModifier.mp optional
  obtain ⟨names, lead, trail, quote, inner, rest, proper, leadBlank, trailBlank, quoted, -, rfl, -⟩ :=
    mem_ways_clausePart way
  obtain ⟨b, gap, rfl⟩ := List.exists_cons_of_ne_nil nonempty
  refine ⟨b, Identifier.importWord.text ++ (b :: gap ++ (modifier ++ (names ++ lead))), trail, quote,
    inner ++ quote :: rest, blank b List.mem_cons_self, ?_, trailBlank, quoted, ?_, ?_⟩
  · have plain := clauseHead_plain proper leadBlank trailBlank
    intro c member
    simp only [List.mem_append] at member
    rcases member with word | space | early | inside | space
    · exact isQuote_of_clause (.inr (Identifier.importWord.isToken.2 c word))
    · exact isQuote_of_clause (.inl (blank c space))
    · exact modifier_plain written c early
    · exact plain c (by simp [inside])
    · exact plain c (by simp [space])
  · exact ⟨gap ++ (modifier ++ (names ++ lead)) ++ (Identifier.fromWord.text ++ trail), by simp⟩
  · simp only [List.append_assoc, List.cons_append]
    rfl

namespace ImportLine.HeadText

/-- The head of a line with a clause ends in `from`. -/
theorem ends_from {typeOnly : Bool} {clause : LineClause} {specifier : Specifier} {head : Text}
    (written : (ImportLine.clause typeOnly clause specifier).HeadText head) :
    ∃ start trail, head = start ++ (Identifier.fromWord.text ++ trail) ∧
      ∀ c ∈ trail, isBlank c = true := by
  have shape : lex head = (Identifier.importWord.text :: (modifierTokens typeOnly ++ clause.tokens)) ++
      [Identifier.fromWord.text] := by
    rw [written.lex_eq]
    simp [ImportLine.tokens]
  obtain ⟨left, right, rfl, -, last, -⟩ := exists_of_lex_append shape
  obtain ⟨gap, trail, rfl, -, none, -⟩ := exists_of_lex_cons last
  exact ⟨left ++ gap, trail, by simp, isBlank_of_lex_eq_nil none⟩

/-- The head of an import for effect ends in `import`. -/
theorem ends_import {specifier : Specifier} {head : Text}
    (written : (ImportLine.effect specifier).HeadText head) :
    ∃ trail, head = Identifier.importWord.text ++ trail ∧ ∀ c ∈ trail, isBlank c = true := by
  cases written with
  | effect blank => exact ⟨_, rfl, blank⟩

end ImportLine.HeadText

namespace LineText

variable {typeOnly : Bool} {clause : LineClause} {specifier : Specifier}

theorem core_ne_nil {line : ImportLine} (text : LineText line) : text.core ≠ [] := by
  simp [core]

theorem core_eq {line : ImportLine} (text : LineText line) : text.core =
    text.head ++ [text.quote.char] ++ (line.specifier.text ++ [text.quote.char]) := by
  simp [core]

theorem head_plain {line : ImportLine} (text : LineText line) {left right : Text}
    (split : text.head = left ++ right) : ∀ c ∈ right, isQuote c = false := fun c member =>
  isQuote_of_clause (text.written.mem c (split ▸ List.mem_append_right left member))

/-- An import with a clause would need `from` right before the quote, where `import` is. -/
theorem clauseImport_head (text : LineText (.effect specifier)) (before rest : Text) :
    clauseImport.Quiet before (text.head ++ [text.quote.char]) rest := by
  refine Quiet.of_places fun left right split => List.eq_nil_iff_forall_not_mem.mpr fun way member => ?_
  obtain ⟨b, start, trail, quote, others, -, plain, blank, quoted, -, same⟩ :=
    mem_ways_clauseImport member
  have plain' : ∀ c ∈ start ++ (Identifier.fromWord.text ++ trail), isQuote c = false := by
    intro c inside
    simp only [List.mem_append] at inside
    rcases inside with early | word | space
    · exact plain c early
    · exact isQuote_of_clause (.inr (Identifier.fromWord.isToken.2 c word))
    · exact isQuote_of_clause (.inl (blank c space))
  obtain ⟨rfl, -⟩ :=
    append_cons_inj same (text.head_plain split) plain' text.quote.isQuote_char quoted
  obtain ⟨gap, shape, gapBlank⟩ := text.written.ends_import
  obtain ⟨-, ends⟩ : [] ++ Identifier.importWord.text = left ++ start ++ Identifier.fromWord.text ∧ _ :=
    Identifier.importWord.isToken.eq_of_append_blank Identifier.fromWord.isToken
      (by simpa using shape.symm.trans split) gapBlank blank
  exact absurd ends (by decide)

/-- An import with a clause needs a blank behind its first word, and a specifier has none. -/
theorem clauseImport_specifier (named : Specifier) (quote : Quote) (before rest : Text) :
    clauseImport.Quiet before (named.text ++ [quote.char]) rest := by
  refine Quiet.of_places fun left right split => List.eq_nil_iff_forall_not_mem.mpr fun way member => ?_
  obtain ⟨b, start, trail, quote', others, blank, -, -, -, ⟨further, starts⟩, same⟩ :=
    mem_ways_clauseImport member
  rw [← starts, List.append_assoc] at same
  have plain : ∀ c ∈ Identifier.importWord.text ++ [b], isQuote c = false := by
    intro c inside
    rcases List.mem_append.mp inside with word | space
    · exact isQuote_of_clause (.inr (Identifier.importWord.isToken.2 c word))
    · exact isQuote_of_clause (.inl (List.mem_singleton.mp space ▸ blank))
  obtain ⟨body, rfl, -⟩ := exists_of_append_quote same plain quote.isQuote_char
  have solid := named.isBlank_of_mem b (split ▸ by simp)
  simp [blank] at solid

/-- The search for imports with a clause passes over an import for effect. -/
theorem clauseImport_pass (text : LineText (.effect specifier)) (before rest : Text) :
    clauseImport.allBetween before (text.core ++ rest) =
      clauseImport.allBetween (before ++ text.core) rest := by
  rw [core_eq]
  exact allBetween_pass ((text.clauseImport_head before _).append (clauseImport_specifier _ _ _ _))

theorem clauseImport_found (text : LineText (.clause typeOnly clause specifier)) (before rest : Text)
    (edge : before.getLast?.any isWord = false) :
    ∃ found, clauseImport.allBetween before (text.core ++ rest) =
        ⟨⟨before.length, (before ++ text.core).length⟩, found⟩ ::
          clauseImport.allBetween (before ++ text.core) rest ∧
      clause.Reads ((before ++ (text.core ++ rest)).slice found.clause) := by
  obtain ⟨found, first, reads⟩ := text.clauseImport_first before rest edge
  exact ⟨found, allBetween_found text.core_ne_nil first, reads⟩

/-- An import for effect would need `import` right before the quote, where `from` is. -/
theorem effectImport_head (text : LineText (.clause typeOnly clause specifier)) (before rest : Text) :
    effectImport.Quiet before (text.head ++ [text.quote.char]) rest := by
  refine Quiet.of_places fun left right split => List.eq_nil_iff_forall_not_mem.mpr fun way member => ?_
  obtain ⟨blanks, quote, inner, others, blank, quoted, -, same, -⟩ := mem_ways_effectImport member
  obtain ⟨rfl, -⟩ := append_cons_inj same (text.head_plain split)
    (fun c inside => isQuote_of_clause ((mem_word_append Identifier.importWord.proper blank c
      inside).imp id isTokenChar_of_isIdentifier)) text.quote.isQuote_char quoted
  obtain ⟨start, trail, shape, trailBlank⟩ := text.written.ends_from
  obtain ⟨-, ends⟩ : left ++ Identifier.importWord.text = start ++ Identifier.fromWord.text ∧ _ :=
    Identifier.importWord.isToken.eq_of_append_blank Identifier.fromWord.isToken
      (by simpa using split.symm.trans shape) blank trailBlank
  exact absurd ends (by decide)

/-- The search for imports for effect passes over an import with a clause. -/
theorem effectImport_pass {rest : Text} (text : LineText (.clause typeOnly clause specifier))
    (before : Text) (ends : ∀ c, rest.head? = some c → c = '\n') :
    effectImport.allBetween before (text.core ++ ';' :: rest) =
      effectImport.allBetween (before ++ text.core) (';' :: rest) := by
  rw [core_eq]
  exact allBetween_pass ((text.effectImport_head before _).append (effectImport_specifier _ _ _ ends))

theorem effectImport_found (text : LineText (.effect specifier)) (before rest : Text)
    (edge : before.getLast?.any isWord = false) :
    ∃ found, effectImport.allBetween before (text.core ++ rest) =
      ⟨⟨before.length, (before ++ text.core).length⟩, found⟩ ::
        effectImport.allBetween (before ++ text.core) rest := by
  obtain ⟨trail, shape, blank⟩ := text.written.ends_import
  have letters : ∀ c ∈ Identifier.importWord.text, isWord c = true := List.all_eq_true.mp (by decide)
  have solid : ∀ c, (text.quote.char :: (specifier.text ++ text.quote.char :: rest)).head? = some c →
      isBlank c = false := by
    cases text.quote <;> simp [Quote.char] <;> decide
  have first : effectImport.First _ _ _ :=
    (wordChars_first before Identifier.importWord _ letters edge).bind
      ((First.run _ blank solid).bind (specifier_first _ specifier text.quote rest))
  have whole : ∃ found, effectImport.First (.between before (text.core ++ rest)) found
      (.between (before ++ text.core) rest) := by
    simp only [core, shape, ImportLine.specifier, List.append_assoc, List.cons_append,
      List.nil_append] at first ⊢
    exact ⟨_, first⟩
  obtain ⟨found, first⟩ := whole
  exact ⟨found, allBetween_found text.core_ne_nil first⟩

end LineText

end ImportAudit.Script
