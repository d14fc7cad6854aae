import ImportAudit.Script.Binding
import ImportAudit.Proofs.Path
import ImportAudit.Proofs.Search
import ImportAudit.Proofs.Tokens

/-! Lists of named imports. An item is given by its parts and written as tokens with gaps between
them. Whatever the gaps, every match of an item holds the same words, so the names read from a list
are those of its items in order. -/
namespace ImportAudit.Script
open Pattern Text

/-- A name as it may stand in a script. -/
structure Identifier where
  text : Text
  nonempty : text ≠ []
  proper : ∀ c ∈ text, isIdentifier c = true

namespace Identifier

variable (name : Identifier)

theorem unbroken : ∀ c ∈ name.text, isBlank c = false :=
  fun c member => isBlank_of_isIdentifier (name.proper c member)

theorem not_mem {c : Char} (other : isIdentifier c = false) : c ∉ name.text :=
  fun member => by simp [name.proper c member] at other

theorem solid_head (rest : Text) :
    ∀ c, (name.text ++ rest).head? = some c → isBlank c = false :=
  holds_head name.nonempty name.unbroken rest

def typeWord : Identifier := ⟨"type".toList, by decide, List.all_eq_true.mp (by decide)⟩

def asWord : Identifier := ⟨"as".toList, by decide, List.all_eq_true.mp (by decide)⟩

end Identifier

def modifierTokens (typeOnly : Bool) : List Text := if typeOnly then [Identifier.typeWord.text] else []

/-- A modifier with the gap after it. -/
inductive ModifierText : Bool → Text → Prop
  | none : ModifierText false []
  | type {gap : Text} : IsGap gap → ModifierText true (Identifier.typeWord.text ++ gap)

theorem ModifierText.spaced {typeOnly : Bool} {text core : Text} {tokens : List Text}
    (modifier : ModifierText typeOnly text) (spaced : Spaced tokens core) :
    Spaced (modifierTokens typeOnly ++ tokens) (text ++ core) := by
  cases modifier with
  | none => exact spaced
  | type gap => exact .next _ gap spaced

theorem ModifierText.solid_head {typeOnly : Bool} {text rest : Text}
    (modifier : ModifierText typeOnly text) (solid : ∀ c, rest.head? = some c → isBlank c = false) :
    ∀ c, (text ++ rest).head? = some c → isBlank c = false := by
  cases modifier with
  | none => exact solid
  | type =>
      rw [List.append_assoc]
      exact Identifier.typeWord.solid_head _

theorem ModifierText.of_spaced {typeOnly : Bool} {text : Text} {tokens : List Text}
    (spaced : Spaced (modifierTokens typeOnly ++ tokens) text) (more : tokens ≠ []) :
    ∃ modifier rest, text = modifier ++ rest ∧ ModifierText typeOnly modifier ∧
      Spaced tokens rest := by
  cases typeOnly with
  | false => exact ⟨[], text, rfl, .none, spaced⟩
  | true =>
      obtain ⟨gap, rest, rfl, separated, later⟩ := Spaced.uncons spaced more
      exact ⟨_, rest, rfl, .type separated, later⟩

def aliasTokens (alias? : Option Text) : List Text :=
  alias?.elim [] fun other => [Identifier.asWord.text, other]

/-- The other name of an item, with the gaps before and after `as`. -/
inductive AliasText : Option Identifier → Text → Prop
  | none : AliasText none []
  | as {gap gap' : Text} (other : Identifier) : IsGap gap → IsGap gap' →
      AliasText (some other) (gap ++ Identifier.asWord.text ++ gap' ++ other.text)

def itemTokens (typeOnly : Bool) (name : Text) (alias? : Option Text) : List Text :=
  modifierTokens typeOnly ++ name :: aliasTokens alias?

theorem AliasText.spaced {alias? : Option Identifier} {text : Text} (name : Text)
    (renamed : AliasText alias? text) :
    Spaced (itemTokens false name (alias?.map Identifier.text)) (name ++ text) := by
  cases renamed with
  | none => simpa [itemTokens, modifierTokens, aliasTokens] using Spaced.last name
  | as other gap gap' =>
      have shape := Spaced.next name gap (.next Identifier.asWord.text gap' (.last other.text))
      simpa [itemTokens, modifierTokens, aliasTokens] using shape

theorem AliasText.of_spaced {name : Text} {alias? : Option Identifier} {text : Text}
    (spaced : Spaced (name :: (aliasTokens (alias?.map Identifier.text) ++ [[]])) text) :
    ∃ renamed trail, text = name ++ (renamed ++ trail) ∧ AliasText alias? renamed ∧
      IsGap trail := by
  cases alias? with
  | none =>
      obtain ⟨trail, rest, rfl, separated, later⟩ := spaced.uncons (by simp)
      exact ⟨[], trail, by simp [later.eq_of_single], .none, separated⟩
  | some other =>
      obtain ⟨gap, rest, rfl, separated, later⟩ := spaced.uncons (by simp)
      obtain ⟨gap', rest, rfl, separated', later⟩ := Spaced.uncons later (by simp)
      obtain ⟨trail, rest, rfl, trailGap, later⟩ := Spaced.uncons later (by simp)
      exact ⟨_, trail, by simp [later.eq_of_single], .as other separated separated', trailGap⟩

/-- The number of tokens tells the forms of an item apart. -/
theorem itemTokens_inj {typeOnly typeOnly' : Bool} {name name' : Text} {alias? alias?' : Option Text}
    (same : itemTokens typeOnly name alias? = itemTokens typeOnly' name' alias?') :
    name = name' ∧ alias? = alias?' := by
  cases typeOnly <;> cases typeOnly' <;> cases alias? <;> cases alias?' <;>
    simp_all [itemTokens, modifierTokens, aliasTokens]

/-- `name` or `name as alias`, where `type` may come first. -/
structure ImportItem where
  typeOnly : Bool
  name : Identifier
  alias? : Option Identifier

/-- The kind of a binding, the local name and the name in the other module. -/
def Binding.names (binding : Binding) : BindingKind × String × String :=
  (binding.kind, binding.localName, binding.importName)

namespace ImportItem

variable (item : ImportItem)

def tokens : List Text :=
  itemTokens item.typeOnly item.name.text (item.alias?.map Identifier.text)

def names : BindingKind × String × String :=
  (.named, .ofList (item.alias?.getD item.name).text, .ofList item.name.text)

theorem mem_tokens {token : Text} (member : token ∈ item.tokens) :
    token ≠ [] ∧ ∀ c ∈ token, isIdentifier c = true := by
  have named : ∀ name : Identifier, name.text ≠ [] ∧ ∀ c ∈ name.text, isIdentifier c = true :=
    fun name => ⟨name.nonempty, name.proper⟩
  obtain ⟨typeOnly, name, alias?⟩ := item
  cases typeOnly <;> cases alias? <;>
    simp only [tokens, itemTokens, modifierTokens, aliasTokens, Option.map_none, Option.map_some,
      Option.elim, List.mem_cons, List.mem_append, List.not_mem_nil, or_false, if_true, if_false,
      Bool.false_eq_true, false_or] at member
  all_goals grind

variable {item} in
/-- The words of an item are its tokens, also with gaps around it. -/
theorem words_eq {tokens : List Text} {text : Text} (spaced : Spaced tokens text)
    (same : tokens.filter (· ≠ []) = item.tokens) : text.words = item.tokens := by
  rw [spaced.words_eq, same]
  intro token member c inside
  by_cases empty : token = []
  · simp [empty] at inside
  · have listed : token ∈ item.tokens := same ▸ List.mem_filter.mpr ⟨member, by simpa using empty⟩
    exact isBlank_of_isIdentifier ((item.mem_tokens listed).2 c inside)

theorem filter_tokens : item.tokens.filter (· ≠ []) = item.tokens :=
  List.filter_eq_self.mpr fun token member => by simpa using (item.mem_tokens member).1

end ImportItem

theorem mem_ways_typeModifier {before after : Text} {found : Unit × Cursor} :
    found ∈ typeModifier.ways (.between before after) ↔
      ∃ typeOnly text rest, ModifierText typeOnly text ∧ after = text ++ rest ∧
        found = ((), .between (before ++ text) rest) := by
  have parts : typeModifier = either (do chars Identifier.typeWord.text; blanks1) (pure ()) := rfl
  rw [parts, ways_either, List.mem_append, ways_pure, List.mem_singleton, mem_ways_bind]
  constructor
  · rintro (⟨⟨⟩, place, word, blanks⟩ | rfl)
    · obtain ⟨rest, rfl, ⟨⟩⟩ := mem_ways_chars.mp word
      obtain ⟨gap, rest, rfl, nonempty, blank, rfl⟩ := mem_ways_many1.mp blanks
      exact ⟨true, _, rest, .type ⟨nonempty, blank⟩, by simp, by simp⟩
    · exact ⟨false, [], after, .none, rfl, by simp⟩
  · rintro ⟨typeOnly, text, rest, modifier, rfl, rfl⟩
    cases modifier with
    | none => exact .inr (by simp)
    | @type gap separated =>
        refine .inl ⟨(), .between (before ++ Identifier.typeWord.text) (gap ++ rest), ?_, ?_⟩
        · exact mem_ways_chars.mpr ⟨gap ++ rest, by simp, rfl⟩
        · exact mem_ways_many1.mpr ⟨gap, rest, rfl, separated.1, separated.2, by simp⟩

theorem typeModifier_reaches {typeOnly : Bool} {text : Text} (before rest : Text)
    (modifier : ModifierText typeOnly text) :
    typeModifier.Reaches (.between before (text ++ rest)) (.between (before ++ text) rest) :=
  ⟨(), mem_ways_typeModifier.mpr ⟨typeOnly, text, rest, modifier, rfl, rfl⟩⟩

theorem mem_ways_identifier {before after : Text} {found : Span × Cursor} :
    found ∈ identifier.ways (.between before after) ↔
      ∃ name : Identifier, ∃ rest, after = name.text ++ rest ∧
        found = (⟨before.length, (before ++ name.text).length⟩, .between (before ++ name.text) rest) := by
  unfold identifier
  rw [ways_spanOf, List.mem_map]
  constructor
  · rintro ⟨way, member, rfl⟩
    obtain ⟨taken, rest, rfl, nonempty, proper, rfl⟩ := mem_ways_many1.mp member
    exact ⟨⟨taken, nonempty, proper⟩, rest, rfl, rfl⟩
  · rintro ⟨name, rest, rfl, rfl⟩
    exact ⟨_, mem_ways_many1.mpr ⟨name.text, rest, rfl, name.nonempty, name.proper, rfl⟩, rfl⟩

theorem identifier_reaches (before : Text) (name : Identifier) (rest : Text) :
    identifier.Reaches (.between before (name.text ++ rest)) (.between (before ++ name.text) rest) :=
  ⟨_, mem_ways_identifier.mpr ⟨name, rest, rfl, rfl⟩⟩

/-- `as` and another name, if they are there. -/
def aliasPart : Pattern (Option Span) :=
  maybe? do blankRun1; chars Identifier.asWord.text; blankRun1; identifier

theorem mem_ways_aliasPart {before after : Text} {value : Option Span} {place : Cursor}
    (way : (value, place) ∈ aliasPart.ways (.between before after)) :
    ∃ alias? text rest, AliasText alias? text ∧ after = text ++ rest ∧
      place = .between (before ++ text) rest ∧
      value.map (before ++ after).slice = alias?.map Identifier.text := by
  unfold aliasPart maybe? at way
  rw [ways_either, List.mem_append, ways_pure, List.mem_singleton, ways_map, List.mem_map] at way
  rcases way with ⟨⟨span, place⟩, way, ⟨⟩⟩ | same
  · obtain ⟨⟨⟩, place, blanks, way⟩ := mem_ways_bind.mp way
    obtain ⟨gap, rest, rfl, nonempty, blank, ⟨⟩⟩ := mem_ways_run1 blanks
    obtain ⟨⟨⟩, place, word, way⟩ := mem_ways_bind.mp way
    obtain ⟨rest, rfl, ⟨⟩⟩ := mem_ways_chars.mp word
    obtain ⟨⟨⟩, place, blanks, way⟩ := mem_ways_bind.mp way
    obtain ⟨gap', rest, rfl, nonempty', blank', ⟨⟩⟩ := mem_ways_run1 blanks
    obtain ⟨other, rest, rfl, ⟨⟩⟩ := mem_ways_identifier.mp way
    refine ⟨some other, _, rest, .as other ⟨nonempty, blank⟩ ⟨nonempty', blank'⟩, by simp,
      by simp, ?_⟩
    have named := slice_append (before ++ gap ++ Identifier.asWord.text ++ gap') other.text rest
    simpa using named
  · obtain ⟨rfl, rfl⟩ := Prod.mk.inj same
    exact ⟨none, [], after, .none, rfl, by simp, rfl⟩

theorem aliasPart_reaches {alias? : Option Identifier} {text : Text} (before rest : Text)
    (renamed : AliasText alias? text) :
    aliasPart.Reaches (.between before (text ++ rest)) (.between (before ++ text) rest) := by
  cases renamed with
  | none => exact ⟨none, by simp [aliasPart, maybe?]⟩
  | @as gap gap' other separated separated' =>
      have written := (Reaches.run1 before separated.1 separated.2
        (Identifier.asWord.solid_head (gap' ++ (other.text ++ rest)))).bind fun _ =>
          (Reaches.chars _ _ _).bind fun _ =>
            (Reaches.run1 _ separated'.1 separated'.2 (other.solid_head rest)).bind fun _ =>
              identifier_reaches _ other rest
      simp only [List.append_assoc] at written ⊢
      exact written.maybe?

/-- A match of an item holds its tokens, and the names are those of the matched stretches. -/
theorem mem_ways_namedItem {piece : Text} {value : Span × Option Span} {place : Cursor}
    (way : (value, place) ∈ namedItem.ways (.between [] piece)) :
    ∃ item : ImportItem, piece.words = item.tokens ∧
      piece.slice value.1 = item.name.text ∧
      value.2.map piece.slice = item.alias?.map Identifier.text := by
  obtain ⟨⟨⟩, place, blanks, way⟩ := mem_ways_bind.mp way
  obtain ⟨lead, rest, rfl, leadBlank, ⟨⟩⟩ := mem_ways_run blanks
  obtain ⟨⟨⟩, place, optional, way⟩ := mem_ways_bind.mp way
  obtain ⟨typeOnly, word, rest, modifier, rfl, ⟨⟩⟩ := mem_ways_typeModifier.mp optional
  obtain ⟨span, place, named, way⟩ := mem_ways_bind.mp way
  obtain ⟨name, rest, rfl, ⟨⟩⟩ := mem_ways_identifier.mp named
  obtain ⟨span?, place, optional, way⟩ := mem_ways_bind.mp way
  obtain ⟨alias?, other, rest, renamed, rfl, rfl, same⟩ := mem_ways_aliasPart optional
  obtain ⟨⟨⟩, place, blanks, way⟩ := mem_ways_bind.mp way
  obtain ⟨trail, rest, rfl, trailBlank, ⟨⟩⟩ := mem_ways_run blanks
  obtain ⟨⟨⟩, place, ending, way⟩ := mem_ways_bind.mp way
  obtain ⟨rfl, ⟨⟩⟩ := mem_ways_atEnd.mp ending
  obtain ⟨rfl, -⟩ := Prod.mk.inj (List.mem_singleton.mp way)
  -- The gaps around the item are not part of it; its words tell which item was matched.
  have spaced : Spaced (ImportItem.mk typeOnly name alias?).tokens (word ++ (name.text ++ other)) :=
    modifier.spaced (renamed.spaced name.text)
  refine ⟨⟨typeOnly, name, alias?⟩, ?_, ?_, ?_⟩
  · calc words (lead ++ (word ++ (name.text ++ (other ++ (trail ++ [])))))
      _ = words (lead ++ (word ++ (name.text ++ other)) ++ trail) := by simp
      _ = words (word ++ (name.text ++ other)) := by
          rw [words_append_of_blank trailBlank, words_blank_append leadBlank]
      _ = _ := ImportItem.words_eq spaced (ImportItem.filter_tokens _)
  · have found := slice_append (lead ++ word) name.text (other ++ trail)
    simpa using found
  · simpa using same

theorem namedItem_reaches {item : ImportItem} {piece : Text}
    (spaced : Spaced ([] :: item.tokens ++ [[]]) piece) :
    namedItem.Reaches (.between [] piece) (.between piece []) := by
  obtain ⟨typeOnly, name, alias?⟩ := item
  simp only [ImportItem.tokens, itemTokens, List.cons_append, List.append_assoc] at spaced
  obtain ⟨lead, rest, rfl, leadGap, spaced⟩ := spaced.uncons (by simp)
  obtain ⟨word, rest, rfl, modifier, spaced⟩ := ModifierText.of_spaced spaced (by simp)
  obtain ⟨other, trail, rfl, renamed, trailGap⟩ := AliasText.of_spaced spaced
  have reached := (Reaches.run [] leadGap.2 (modifier.solid_head
    (name.solid_head (other ++ (trail ++ []))))).bind
    fun _ => (typeModifier_reaches _ _ modifier).bind fun _ =>
      (identifier_reaches _ name _).bind fun found => (aliasPart_reaches _ _ renamed).bind fun other =>
        (Reaches.run _ trailGap.2 (by simp)).bind fun _ =>
          (Reaches.atEnd _).bind fun _ => Reaches.pure (found, other)
  simp only [List.append_assoc, List.append_nil, List.nil_append] at reached ⊢
  exact reached

/-- The names read from an item between two gaps are the item's own. -/
theorem itemBinding?_names {item : ImportItem} {piece : Text} (line : Nat → Int)
    (spaced : Spaced ([] :: item.tokens ++ [[]]) piece) :
    (itemBinding? line piece).map Binding.names = some item.names := by
  have own : words piece = item.tokens :=
    ImportItem.words_eq spaced (by simpa using item.filter_tokens)
  -- every match holds the same words, so it does not matter which one is preferred
  obtain ⟨value, member⟩ := namedItem_reaches spaced
  obtain ⟨⟨value, place⟩, others, ways⟩ := List.exists_cons_of_ne_nil (List.ne_nil_of_mem member)
  have first : namedItem.First (.between [] piece) value place := by simp [First, ways]
  obtain ⟨found, same, name, other⟩ := mem_ways_namedItem first.mem
  obtain ⟨sameName, sameAlias⟩ := itemTokens_inj (same.symm.trans own)
  have bound : piece.slice (value.2.getD value.1) = (item.alias?.getD item.name).text := by
    rw [← Option.getD_map piece.slice, ← Option.getD_map Identifier.text, name, other, sameName,
      sameAlias]
  simp [itemBinding?, matchStart?, Cursor.start_eq, first.matchAt?, Binding.names, ImportItem.names,
    wordAt, bound, name, sameName]

theorem itemBinding?_blank {piece : Text} (line : Nat → Int)
    (blank : ∀ c ∈ piece, isBlank c = true) : itemBinding? line piece = none := by
  have none : words piece = [] := by
    have nothing := @words_append_of_blank [] piece blank
    simpa [words_of_unbroken] using nothing
  have fails : namedItem.ways (.between [] piece) = [] := by
    refine List.eq_nil_iff_forall_not_mem.mpr fun way member => ?_
    obtain ⟨item, same, -⟩ := mem_ways_namedItem member
    simp [none, ImportItem.tokens, itemTokens] at same
  simp [itemBinding?, matchStart?, Cursor.start_eq, matchAt?_eq_none fails]

theorem listItem_first {piece : Text} (before rest : Text) (nonempty : piece ≠ [])
    (whole : ',' ∉ piece) (stop : ∀ c, rest.head? = some c → c = ',') :
    listItem.First (.between before (piece ++ rest)) () (.between (before ++ piece) rest) := by
  refine First.many1 before nonempty (fun c member => ?_) (fun c next => ?_)
  · simpa using ne_of_mem_of_not_mem member whole
  · simpa using stop c next

/-- The texts that a search in a list finds from a place on. -/
def piecesBetween (before after : Text) : List Text :=
  (listItem.allBetween before after).map fun found => (before ++ after).slice found.span

theorem piecesBetween_append {piece : Text} (before rest : Text) (whole : ',' ∉ piece)
    (stop : ∀ c, rest.head? = some c → c = ',') :
    piecesBetween before (piece ++ rest) =
      [piece].filter (· ≠ []) ++ piecesBetween (before ++ piece) rest := by
  by_cases empty : piece = []
  · simp [empty]
  · have found := slice_append before piece rest
    rw [piecesBetween, allBetween_found empty (listItem_first before rest empty whole stop)]
    simpa [piecesBetween, empty] using found

theorem piecesBetween_comma (before rest : Text) :
    piecesBetween before (',' :: rest) = piecesBetween (before ++ [',']) rest := by
  have heads : ∀ before c after, listItem.ways (.between before (c :: after)) ≠ [] → c ≠ ',' := by
    rintro before _ after matched rfl
    simp [listItem, many1] at matched
  have quiet : listItem.Quiet before [','] rest := Quiet.of_heads heads (by simp)
  have passed := allBetween_pass quiet
  rw [List.singleton_append] at passed
  simp [piecesBetween, passed]

theorem piecesBetween_eq (before after : Text) :
    piecesBetween before after = (after.split ',').filter (· ≠ []) := by
  by_cases comma : ',' ∈ after
  · obtain ⟨piece, rest, rfl, whole⟩ := List.eq_append_cons_of_mem comma
    have later := piecesBetween_eq (before ++ piece ++ [',']) rest
    rw [piecesBetween_append before _ whole (by simp), piecesBetween_comma, later,
      split_append_separator, split_of_not_mem whole, List.filter_append]
  · have passed := piecesBetween_append before [] comma (by simp)
    rw [List.append_nil] at passed
    rw [passed, split_of_not_mem comma]
    simp [piecesBetween]
termination_by after.length
decreasing_by
  subst_vars
  simp
  omega

/-- The items of a list are the pieces between its commas that hold something. -/
theorem listItem_pieces (text : Text) :
    (listItem.all text).map (fun found => text.slice found.span) =
      (text.split ',').filter (· ≠ []) :=
  piecesBetween_eq [] text

def itemNames? (piece : Text) : Option (BindingKind × String × String) :=
  (itemBinding? (fun _ => 0) piece).map Binding.names

theorem map_itemBinding? (line : Nat → Int) (piece : Text) :
    (itemBinding? line piece).map Binding.names = itemNames? piece := by
  simp [itemNames?, itemBinding?, Function.comp_def, Binding.names]

theorem braced_first {inner : Text} (before rest : Text) (closed : '}' ∉ inner) :
    braced.First (.between before ('{' :: (inner ++ '}' :: rest)))
      ⟨(before ++ ['{']).length, (before ++ ['{'] ++ inner).length⟩
      (.between (before ++ ['{'] ++ inner ++ ['}']) rest) := by
  have stays : ∀ c ∈ inner, (c != '}') = true := fun c member => by
    simpa using ne_of_mem_of_not_mem member closed
  have ran : (run (· != '}')).ways (.between (before ++ ['{']) (inner ++ '}' :: rest)) = _ :=
    ways_run_append (before ++ ['{']) stays (by simp)
  apply First.of_ways
  simp [braced, char, ran]

theorem braced_heads (before : Text) (c : Char) (after : Text)
    (matched : braced.ways (.between before (c :: after)) ≠ []) : c = '{' := by
  by_contra other
  simp [braced, char, other] at matched

theorem namedBindings_eq_nil {clause : Text} (line : Nat → Int) (absent : '{' ∉ clause) :
    namedBindings line clause = [] := by
  have quiet : braced.Quiet [] clause [] :=
    Quiet.of_heads braced_heads fun c member => ne_of_mem_of_not_mem member absent
  simp [namedBindings, first?_eq_none quiet (by simp [braced, char])]

theorem namedBindings_names {lead inner : Text} (line : Nat → Int) (rest : Text)
    (opened : '{' ∉ lead) (closed : '}' ∉ inner) :
    (namedBindings line (lead ++ '{' :: (inner ++ '}' :: rest))).map Binding.names =
      (inner.split ',').filterMap itemNames? := by
  have quiet : braced.Quiet [] lead ('{' :: (inner ++ '}' :: rest)) :=
    Quiet.of_heads braced_heads fun c member => ne_of_mem_of_not_mem member opened
  have found := first?_eq_some quiet (braced_first lead rest closed)
  have items := slice_append (lead ++ ['{']) inner ('}' :: rest)
  simp only [List.append_assoc, List.cons_append, List.nil_append] at items found
  have nothing : itemNames? [] = none := by simp [itemNames?, itemBinding?_blank]
  unfold namedBindings
  rw [found]
  simp only [List.map_filterMap, map_itemBinding?]
  calc _ = ((listItem.all inner).map fun item => inner.slice item.span).filterMap itemNames? := by
        rw [List.filterMap_map, items]
        rfl
    _ = ((inner.split ',').filter (· ≠ [])).filterMap itemNames? := by rw [listItem_pieces]
    _ = (inner.split ',').filterMap itemNames? := by
        rw [List.filterMap_filter]
        refine List.filterMap_congr fun piece _ => ?_
        by_cases empty : piece = [] <;> simp [empty, nothing]

/-- The tokens of a list: commas between the items, and perhaps one after the last. -/
def listTokens : List ImportItem → Bool → List Text
  | [], trailing => if trailing then [[',']] else []
  | [item], trailing => item.tokens ++ if trailing then [[',']] else []
  | item :: other :: items, trailing => item.tokens ++ [','] :: listTokens (other :: items) trailing

theorem mem_listTokens {items : List ImportItem} {trailing : Bool} {token : Text}
    (member : token ∈ listTokens items trailing) :
    token = [','] ∨ ∃ item ∈ items, token ∈ item.tokens := by
  induction items with
  | nil =>
      cases trailing with
      | false => simp [listTokens] at member
      | true => exact .inl (by simpa [listTokens] using member)
  | cons item items ih =>
      cases items with
      | nil => cases trailing <;> simp [listTokens] at member ⊢ <;> tauto
      | cons other items =>
          simp only [listTokens, List.mem_append, List.mem_cons] at member ih ⊢
          grind

theorem names_of_item {item : ImportItem} {piece : Text}
    (spaced : Spaced ([] :: item.tokens ++ [[]]) piece) :
    (piece.split ',').filterMap itemNames? = [item.names] := by
  have whole : ',' ∉ piece := by
    intro member
    rcases spaced.mem member with blank | ⟨token, listed, inside⟩
    · exact absurd blank (by decide)
    · simp only [List.cons_append, List.mem_cons, List.mem_append, List.not_mem_nil, or_false]
        at listed
      rcases listed with rfl | listed | rfl
      · simp at inside
      · exact absurd ((item.mem_tokens listed).2 _ inside) (by decide)
      · simp at inside
  rw [split_of_not_mem whole, List.filterMap_cons, itemNames?, itemBinding?_names _ spaced]
  rfl

theorem names_of_gap {gap : Text} (separated : IsGap gap) :
    (gap.split ',').filterMap itemNames? = [] := by
  have whole : ',' ∉ gap := fun member => absurd (separated.2 _ member) (by decide)
  rw [split_of_not_mem whole, List.filterMap_cons, itemNames?, itemBinding?_blank _ separated.2]
  rfl

theorem names_of_comma (first second : Text) :
    ((first ++ [','] ++ second).split ',').filterMap itemNames? =
      (first.split ',').filterMap itemNames? ++ (second.split ',').filterMap itemNames? := by
  rw [List.append_assoc, List.singleton_append, split_append_separator, List.filterMap_append]

/-- The names read from a list are those of its items in order. -/
theorem names_of_list {items : List ImportItem} {trailing : Bool} {inner : Text}
    (spaced : Spaced ([] :: listTokens items trailing ++ [[]]) inner) :
    (inner.split ',').filterMap itemNames? = items.map ImportItem.names := by
  induction items generalizing inner with
  | nil =>
      cases trailing with
      | false => exact names_of_gap spaced.isGap
      | true =>
          have shape : Spaced ([[]] ++ [','] :: [[]]) inner := spaced
          obtain ⟨left, right, rfl, first, second⟩ := shape.split
          rw [names_of_comma, names_of_gap first.isGap, names_of_gap second.isGap]
          rfl
  | cons item items ih =>
      cases items with
      | nil =>
          cases trailing with
          | false => exact names_of_item (by simpa [listTokens] using spaced)
          | true =>
              have shape : Spaced (([] :: item.tokens) ++ [','] :: [[]]) inner := by
                simpa [listTokens] using spaced
              obtain ⟨left, right, rfl, first, second⟩ := shape.split
              rw [names_of_comma, names_of_item first, names_of_gap second.isGap]
              rfl
      | cons other items =>
          have shape : Spaced (([] :: item.tokens) ++ [','] ::
              (listTokens (other :: items) trailing ++ [[]])) inner := by
            simpa [listTokens] using spaced
          obtain ⟨left, right, rfl, first, second⟩ := shape.split
          rw [names_of_comma, names_of_item first, ih second]
          rfl

end ImportAudit.Script
