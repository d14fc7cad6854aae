import ImportAudit.Proofs.Lexing
import ImportAudit.Proofs.Mentions

/-! Names behind a word that announces a use, such as `return`. The word may be the end of a longer token,
and blanks stand between it and the name. A search counts the pairs of such tokens from left to right,
where no token belongs to two pairs. -/
namespace ImportAudit.Script
open Pattern Text

theorem mem_ways_standalone {name before after : Text} {found : Nat × Cursor} :
    found ∈ (standalone name).ways (.between before after) ↔
      before.getLast?.any (fun c => isIdentifier c || c == '.') = false ∧
        ∃ rest, after = name ++ rest ∧ rest.head?.any isIdentifier = false ∧
          found = (before.length, .between (before ++ name) rest) := by
  unfold ways standalone
  constructor
  · intro member
    cases moved : (Cursor.between before after).after? name with
    | none => simp [moved] at member
    | some place =>
        obtain ⟨rest, split, rfl⟩ := Cursor.after?_eq_some moved
        cases touches : before.getLast?.any (fun c => isIdentifier c || c == '.') with
        | true => simp [moved, touches] at member
        | false =>
            cases goes : rest.head?.any isIdentifier with
            | true => simp [moved, touches, goes] at member
            | false => exact ⟨rfl, rest, split, goes, by simpa [moved, touches, goes] using member⟩
  · rintro ⟨free, rest, rfl, ends, rfl⟩
    simp [Cursor.after?_append, free, ends]

/-- The token ends in the word, which starts at a word boundary. -/
def endsIn (word token : Text) : Bool :=
  word.isSuffixOf token && !(token.take (token.length - word.length)).getLast?.any isWord

theorem endsIn_iff {word token : Text} : endsIn word token = true ↔
    ∃ lead, token = lead ++ word ∧ lead.getLast?.any isWord = false := by
  unfold endsIn
  rw [Bool.and_eq_true, List.isSuffixOf_iff_suffix, Bool.not_eq_true']
  constructor
  · rintro ⟨⟨lead, rfl⟩, edge⟩
    exact ⟨lead, rfl, by simpa using edge⟩
  · rintro ⟨lead, rfl, edge⟩
    exact ⟨List.suffix_append lead word, by simpa using edge⟩

/-- How often a token that ends in one of the words comes right before the name. -/
def heralded (words : List Text) (name : Text) : List Text → Nat
  | first :: second :: tokens =>
      if words.any (endsIn · first) ∧ second = name then heralded words name tokens + 1
      else heralded words name (second :: tokens)
  | _ => 0

section Tokens

variable {words : List Text} {name first : Text} {tokens : List Text}

theorem heralded_found (herald : words.any (endsIn · first) = true) :
    heralded words name (first :: name :: tokens) = heralded words name tokens + 1 := by
  simp [heralded, herald]

theorem heralded_pass (other : words.any (endsIn · first) = true → tokens.head? ≠ some name) :
    heralded words name (first :: tokens) = heralded words name tokens := by
  cases tokens with
  | nil => rfl
  | cons second tokens =>
      rw [heralded, if_neg]
      rintro ⟨herald, rfl⟩
      exact other herald rfl

end Tokens

theorem isIdentifier_of_isWord {c : Char} (letter : isWord c = true) : isIdentifier c = true := by
  simp [isIdentifier, letter]

theorem isWord_of_isBlank {c : Char} (blank : isBlank c = true) : isWord c = false :=
  (Bool.or_eq_false_iff.mp (isIdentifier_of_isBlank blank)).1

/-- Words of letters that may come before a name. -/
structure Heralds (words : List Text) : Prop where
  nonempty : ∀ word ∈ words, word ≠ []
  letters : ∀ word ∈ words, ∀ c ∈ word, isWord c = true

/-- No word ends in a mark. -/
theorem Heralds.not_endsIn_mark {words : List Text} {c : Char} (proper : Heralds words)
    (other : isIdentifier c = false) : ¬ words.any (endsIn · [c]) = true := by
  intro herald
  obtain ⟨word, listed, ends⟩ := List.any_eq_true.mp herald
  obtain ⟨lead, split, -⟩ := endsIn_iff.mp ends
  have last := List.getLast_mem (proper.nonempty word listed)
  have same : word.getLast (proper.nonempty word listed) = c :=
    List.mem_singleton.mp (split ▸ List.mem_append_right lead last)
  rw [isIdentifier_of_isWord (same ▸ proper.letters word listed _ last)] at other
  cases other

/-- The ways to match one of the words, a gap and the name. -/
def MatchesHeralded (words : List Text) (name : Text) (p : Pattern Nat) : Prop :=
  ∀ before after found, after.head?.any Usage.typeMark = false →
    (found ∈ p.ways (.between before after) ↔ ∃ word ∈ words, ∃ gap rest, IsGap gap ∧
      before.getLast?.any isWord = false ∧ after = word ++ (gap ++ (name ++ rest)) ∧
      rest.head?.any isIdentifier = false ∧
      found = ((before ++ word ++ gap).length, .between (before ++ (word ++ (gap ++ name))) rest))

section Instances

variable {words : List Text} {name : Text} {start gaps : Pattern Unit}

/-- A pattern that takes a word, then blanks and then the name. -/
theorem MatchesHeralded.of_parts (proper : Heralds words)
    (starts : ∀ before after place, after.head?.any Usage.typeMark = false →
      (((), place) ∈ start.ways (.between before after) ↔ ∃ word ∈ words, ∃ rest,
        before.getLast?.any isWord = false ∧ after = word ++ rest ∧
        place = .between (before ++ word) rest))
    (blanks : ∀ before after place, ((), place) ∈ gaps.ways (.between before after) →
      ∃ gap rest, (∀ c ∈ gap, isBlank c = true) ∧ after = gap ++ rest ∧
        place = .between (before ++ gap) rest)
    (every : ∀ before gap rest, IsGap gap →
      ((), .between (before ++ gap) rest) ∈ gaps.ways (.between before (gap ++ rest))) :
    MatchesHeralded words name (start >>= fun _ => gaps >>= fun _ => standalone name) := by
  intro before after found unmarked
  constructor
  · intro way
    obtain ⟨⟨⟩, place, first, way⟩ := mem_ways_bind.mp way
    obtain ⟨word, listed, rest, edge, rfl, rfl⟩ := (starts _ _ _ unmarked).mp first
    obtain ⟨⟨⟩, place, between, way⟩ := mem_ways_bind.mp way
    obtain ⟨gap, rest, blank, rfl, rfl⟩ := blanks _ _ _ between
    obtain ⟨free, rest, rfl, ends, rfl⟩ := mem_ways_standalone.mp way
    -- without a blank the name would continue the word
    have some : gap ≠ [] := by
      rintro rfl
      have last := List.getLast_mem (proper.nonempty word listed)
      rw [List.append_nil, List.getLast?_append_of_ne_nil _ (proper.nonempty word listed),
        List.getLast?_eq_some_getLast (proper.nonempty word listed), Option.any_some,
        isIdentifier_of_isWord (proper.letters word listed _ last)] at free
      cases free
    exact ⟨word, listed, gap, rest, ⟨some, blank⟩, edge, rfl, ends, by simp⟩
  · rintro ⟨word, listed, gap, rest, separated, edge, rfl, ends, rfl⟩
    have first := (starts before _ _ unmarked).mpr ⟨word, listed, gap ++ (name ++ rest), edge, rfl, rfl⟩
    have blank := separated.2 _ (List.getLast_mem separated.1)
    have free : (before ++ word ++ gap).getLast?.any (fun c => isIdentifier c || c == '.') = false := by
      rw [List.getLast?_append_of_ne_nil _ separated.1, List.getLast?_eq_some_getLast separated.1,
        Option.any_some, isIdentifier_of_isBlank blank, Bool.false_or, beq_eq_false_iff_ne]
      intro dot
      rw [dot] at blank
      exact absurd blank (by decide)
    refine mem_ways_bind.mpr ⟨(), _, first, mem_ways_bind.mpr ⟨(), _, every _ gap _ separated, ?_⟩⟩
    exact mem_ways_standalone.mpr ⟨free, rest, rfl, ends, by simp⟩

theorem mem_ways_wordChars_letters {word before after : Text} {place : Cursor} (nonempty : word ≠ [])
    (letters : ∀ c ∈ word, isWord c = true) :
    ((), place) ∈ (wordChars word).ways (.between before after) ↔ ∃ rest,
      before.getLast?.any isWord = false ∧ after = word ++ rest ∧
      place = .between (before ++ word) rest := by
  obtain ⟨c, others, rfl⟩ := List.exists_cons_of_ne_nil nonempty
  have letter := letters c List.mem_cons_self
  rw [mem_ways_wordChars]
  constructor
  · rintro ⟨edge, rest, rfl, same⟩
    refine ⟨rest, ?_, rfl, (Prod.mk.inj same).2⟩
    simpa [isBoundary, letter] using edge
  · rintro ⟨rest, edge, rfl, rfl⟩
    refine ⟨?_, rest, rfl, rfl⟩
    simp [isBoundary, letter, edge]

theorem mem_ways_anyOf {α : Type} {patterns : List (Pattern α)} {cursor : Cursor} {found : α × Cursor} :
    found ∈ (anyOf patterns).ways cursor ↔ ∃ p ∈ patterns, found ∈ p.ways cursor := by
  induction patterns with
  | nil => simp [anyOf, ways]
  | cons p patterns ih => simp [anyOf, ih]

theorem mem_ways_headed {α : Type} {accepts : Char → Bool} {p : Pattern α} {before after : Text}
    {found : α × Cursor} : found ∈ (headed accepts p).ways (.between before after) ↔
      after.head?.any accepts = true ∧ found ∈ p.ways (.between before after) := by
  cases after with
  | nil => simp [ways, headed]
  | cons c after => cases accepted : accepts c <;> simp [ways, headed, accepted]

theorem typeWords_heralds : Heralds Usage.typeWords :=
  ⟨by decide, fun word listed => List.all_eq_true.mp (by revert word; decide)⟩

theorem keyword_heralds (word : String) (nonempty : word.toList ≠ [])
    (letters : ∀ c ∈ word.toList, isWord c = true) : Heralds [word.toList] :=
  ⟨by simpa using nonempty, by simpa using letters⟩

theorem keyword_matches (word : String) (name : Text) (nonempty : word.toList ≠ [])
    (letters : ∀ c ∈ word.toList, isWord c = true) :
    MatchesHeralded [word.toList] name
      (keyword word >>= fun _ => blanks1 >>= fun _ => standalone name) := by
  refine .of_parts (keyword_heralds word nonempty letters) ?_ ?_ ?_
  · intro before after place _
    have ways : ((), place) ∈ (keyword word).ways (.between before after) ↔ _ :=
      mem_ways_wordChars_letters nonempty letters
    simpa using ways
  · intro before after place way
    obtain ⟨gap, rest, rfl, -, blank, same⟩ := mem_ways_many1.mp way
    exact ⟨gap, rest, blank, rfl, (Prod.mk.inj same).2⟩
  · intro before gap rest separated
    exact mem_ways_many1.mpr ⟨gap, rest, rfl, separated.1, separated.2, rfl⟩

theorem typePosition_matches (name : Text) :
    MatchesHeralded Usage.typeWords name (Usage.typePosition.pattern name) := by
  refine .of_parts typeWords_heralds ?_ ?_ ?_
  · intro before after place unmarked
    rw [ways_either, List.mem_append, mem_ways_headed, mem_ways_anyOf]
    constructor
    · rintro (mark | ⟨-, p, listed, way⟩)
      · obtain ⟨c, rest, rfl, marked, -⟩ := mem_ways_one.mp mark
        simp [marked] at unmarked
      · obtain ⟨word, among, rfl⟩ := List.mem_map.mp listed
        obtain ⟨rest, edge, split, moved⟩ := (mem_ways_wordChars_letters
          (typeWords_heralds.nonempty word among) (typeWords_heralds.letters word among)).mp way
        exact ⟨word, among, rest, edge, split, moved⟩
    · rintro ⟨word, among, rest, edge, rfl, rfl⟩
      have initial : ∀ word ∈ Usage.typeWords, word.head?.any Usage.typeLetter = true := by decide
      refine .inr ⟨?_, _, List.mem_map_of_mem among, (mem_ways_wordChars_letters
        (typeWords_heralds.nonempty word among) (typeWords_heralds.letters word among)).mpr
          ⟨rest, edge, rfl, rfl⟩⟩
      rw [List.head?_append_of_ne_nil _ (typeWords_heralds.nonempty word among)]
      exact initial word among
  · intro before after place way
    obtain ⟨gap, rest, rfl, blank, same⟩ := mem_ways_many.mp way
    exact ⟨gap, rest, blank, rfl, (Prod.mk.inj same).2⟩
  · intro before gap rest separated
    exact mem_ways_many.mpr ⟨gap, rest, rfl, separated.2, rfl⟩

end Instances

namespace MatchesHeralded

variable {words : List Text} {name : Identifier} {p : Pattern Nat} {before rest : Text}

theorem first {word gap : Text} (shape : MatchesHeralded words name.text p) (proper : Heralds words)
    (listed : word ∈ words) (separated : IsGap gap) (edge : before.getLast?.any isWord = false)
    (unmarked : (word ++ (gap ++ (name.text ++ rest))).head?.any Usage.typeMark = false)
    (ends : rest.head?.any isIdentifier = false) :
    p.First (.between before (word ++ (gap ++ (name.text ++ rest)))) (before ++ word ++ gap).length
      (.between (before ++ (word ++ (gap ++ name.text))) rest) := by
  refine .of_unique ((shape _ _ _ unmarked).mpr
    ⟨word, listed, gap, rest, separated, edge, rfl, ends, rfl⟩) fun found way => ?_
  obtain ⟨word', listed', gap', rest', separated', -, same, -, rfl⟩ := (shape _ _ _ unmarked).mp way
  have stops : ∀ {gap : Text}, IsGap gap → ∀ rest, (gap ++ rest).head?.any isIdentifier = false := by
    intro gap separated rest
    obtain ⟨b, gap, rfl⟩ := List.exists_cons_of_ne_nil separated.1
    simpa using isIdentifier_of_isBlank (separated.2 b List.mem_cons_self)
  have own : ∀ word ∈ words, ∀ c ∈ word, isIdentifier c = true := fun word among c inside =>
    isIdentifier_of_isWord (proper.letters word among c inside)
  obtain ⟨rfl, tails⟩ := word_append_inj same (own word listed) (own word' listed')
    (stops separated _) (stops separated' _)
  obtain ⟨n, others, text⟩ := List.exists_cons_of_ne_nil name.nonempty
  have solid : (!isBlank n) = true := by simp [name.unbroken n (by simp [text])]
  have blank : ∀ {gap : Text}, IsGap gap → ∀ c ∈ gap, (!isBlank c) = false := fun separated c inside => by
    simp [separated.2 c inside]
  obtain ⟨rfl, -, later⟩ := append_cons_inj (by simpa [text] using tails) (blank separated)
    (blank separated') solid solid
  rw [List.append_cancel_left later]

/-- A match starts with a letter. -/
theorem quiet_wordless {stretch : Text} (shape : MatchesHeralded words name.text p)
    (proper : Heralds words) (wordless : ∀ c ∈ stretch, isIdentifier c = false)
    (plain : ∀ c ∈ stretch, Usage.typeMark c = false) : p.Quiet before stretch rest := by
  rintro left c right rfl
  refine List.eq_nil_iff_forall_not_mem.mpr fun way member => ?_
  have unmarked : (c :: right ++ rest).head?.any Usage.typeMark = false := by
    simpa using plain c (by simp)
  obtain ⟨word, listed, gap, others, -, -, same, -⟩ := (shape _ _ _ unmarked).mp member
  obtain ⟨d, letters, rfl⟩ := List.exists_cons_of_ne_nil (proper.nonempty word listed)
  obtain ⟨rfl, -⟩ := List.cons_eq_cons.mp same
  have other := wordless c (by simp)
  rw [isIdentifier_of_isWord (proper.letters _ listed c List.mem_cons_self)] at other
  cases other

/-- Within a word only its end can be the word that comes before the name. -/
theorem inside_word {token left right tail : Text} {way : Nat × Cursor}
    (shape : MatchesHeralded words name.text p) (proper : Heralds words)
    (whole : ∀ c ∈ token, isIdentifier c = true) (plain : ∀ c ∈ token, Usage.typeMark c = false)
    (split : token = left ++ right) (nonempty : right ≠ [])
    (ends : tail.head?.any isIdentifier = false)
    (member : way ∈ p.ways (.between (before ++ left) (right ++ tail))) :
    right ∈ words ∧ left.getLast?.any isWord = false ∧ ∃ gap others, IsGap gap ∧
      tail = gap ++ (name.text ++ others) ∧ others.head?.any isIdentifier = false := by
  have inside : ∀ c ∈ right, c ∈ token := fun c among => split ▸ List.mem_append_right left among
  have unmarked : (right ++ tail).head?.any Usage.typeMark = false := by
    obtain ⟨c, others, rfl⟩ := List.exists_cons_of_ne_nil nonempty
    simpa using plain c (inside c List.mem_cons_self)
  obtain ⟨word, listed, gap, others, separated, edge, same, stops, -⟩ := (shape _ _ _ unmarked).mp member
  have gapEnds : (gap ++ (name.text ++ others)).head?.any isIdentifier = false := by
    obtain ⟨b, gap, rfl⟩ := List.exists_cons_of_ne_nil separated.1
    simpa using isIdentifier_of_isBlank (separated.2 b List.mem_cons_self)
  obtain ⟨rfl, rfl⟩ := word_append_inj same (fun c among => whole c (inside c among))
    (fun c among => isIdentifier_of_isWord (proper.letters word listed c among)) ends gapEnds
  refine ⟨listed, ?_, gap, others, separated, rfl, stops⟩
  by_cases empty : left = []
  · simp [empty]
  · rwa [List.getLast?_append_of_ne_nil _ empty] at edge

theorem head_of_stop {head rest : Text} (ends : head.head?.any isIdentifier = false)
    (stop : ∀ c, rest.head? = some c → isBlank c = false ∧ isIdentifier c = false) :
    (head ++ rest).head?.any isIdentifier = false := by
  cases head with
  | cons d head => simpa using ends
  | nil =>
      cases next : rest.head? with
      | none => simp [next]
      | some d => simpa [next] using (stop d next).2

/-- A word passes without a match where it does not end in one of the words, or where the name does not
come next. -/
theorem quiet_word {token : Identifier} {head : Text} (shape : MatchesHeralded words name.text p)
    (proper : Heralds words) (plain : ∀ c ∈ token.text, Usage.typeMark c = false)
    (stop : ∀ c, rest.head? = some c → isBlank c = false ∧ isIdentifier c = false)
    (ends : head.head?.any isIdentifier = false)
    (other : words.any (endsIn · token.text) = true → (lex head).head? ≠ some name.text) :
    p.Quiet before token.text (head ++ rest) := by
  intro left c right split
  refine List.eq_nil_iff_forall_not_mem.mpr fun way member => ?_
  obtain ⟨listed, edge, gap, others, separated, tail, stops⟩ :=
    inside_word shape proper token.proper plain split (by simp) (head_of_stop ends stop) member
  -- What follows a gap and the name is still part of the head.
  obtain ⟨behind, rfl, rfl⟩ : ∃ behind, head = gap ++ name.text ++ behind ∧ others = behind ++ rest := by
    refine exists_of_append (by simpa using tail) fun d next inside => ?_
    obtain ⟨solid, mark⟩ := stop d next
    rcases List.mem_append.mp inside with space | part
    · simp [separated.2 d space] at solid
    · simp [name.proper d part] at mark
  have apart : behind.head?.any isIdentifier = false := by
    cases behind with
    | nil => rfl
    | cons d behind => simpa using stops
  refine other (List.any_eq_true.mpr ⟨_, listed, endsIn_iff.mpr ⟨left, split, edge⟩⟩) ?_
  rw [List.append_assoc, lex_blank_append separated.2, lex_word name.nonempty name.proper apart]
  rfl

/-- The part of a token before the word that comes before the name passes without a match. -/
theorem quiet_lead {token : Identifier} {lead word tail : Text}
    (shape : MatchesHeralded words name.text p) (proper : Heralds words)
    (plain : ∀ c ∈ token.text, Usage.typeMark c = false) (split : token.text = lead ++ word)
    (edge : lead.getLast?.any isWord = false) (ends : tail.head?.any isIdentifier = false) :
    p.Quiet before lead (word ++ tail) := by
  rintro left c right rfl
  refine List.eq_nil_iff_forall_not_mem.mpr fun way member => ?_
  have placed : way ∈ p.ways (.between (before ++ left) (c :: right ++ word ++ tail)) := by
    simpa using member
  obtain ⟨listed, -⟩ := inside_word shape proper token.proper plain (by simpa using split) (by simp)
    ends placed
  have last : (left ++ c :: right).getLast? = some ((c :: right).getLast (by simp)) := by
    rw [List.getLast?_append_of_ne_nil _ (by simp), List.getLast?_eq_some_getLast]
  have letter := proper.letters _ listed _ (List.mem_append_left word (List.getLast_mem (by simp)))
  rw [last, Option.any_some, letter] at edge
  cases edge

/-- A token that ends in one of the words and the name behind it make one match. -/
theorem found {token : Identifier} {head : Text} {tokens : List Text}
    (shape : MatchesHeralded words name.text p) (proper : Heralds words)
    (plain : ∀ c ∈ token.text, Usage.typeMark c = false)
    (stop : ∀ c, rest.head? = some c → isBlank c = false ∧ isIdentifier c = false)
    (apart : Apart before (token.text ++ head)) (ends : head.head?.any isIdentifier = false)
    (herald : words.any (endsIn · token.text) = true) (follows : lex head = name.text :: tokens) :
    ∃ taken behind, head = taken ++ behind ∧ lex behind = tokens ∧
      Apart (before ++ (token.text ++ taken)) behind ∧
      (p.allBetween before (token.text ++ (taken ++ (behind ++ rest)))).length =
        (p.allBetween (before ++ (token.text ++ taken)) (behind ++ rest)).length + 1 := by
  obtain ⟨word, listed, closing⟩ := List.any_eq_true.mp herald
  obtain ⟨lead, split, edge⟩ := endsIn_iff.mp closing
  obtain ⟨gap, behind, rfl, blank, own, behindApart⟩ := exists_of_lex_cons follows
  have separated : IsGap gap := by
    refine ⟨?_, blank⟩
    rintro rfl
    obtain ⟨c, others, text⟩ := List.exists_cons_of_ne_nil name.nonempty
    simp [text, name.proper c (by simp [text])] at ends
  have boundary : (before ++ lead).getLast?.any isWord = false := by
    by_cases empty : lead = []
    · rw [empty, List.append_nil]
      rcases apart with ended | started
      · exact any_isWord_of_isIdentifier ended
      · obtain ⟨c, others, text⟩ := List.exists_cons_of_ne_nil token.nonempty
        simp [text, token.proper c (by simp [text])] at started
    · rwa [List.getLast?_append_of_ne_nil _ empty]
  have unmarked : (word ++ (gap ++ (name.text ++ (behind ++ rest)))).head?.any Usage.typeMark = false := by
    obtain ⟨c, others, rfl⟩ := List.exists_cons_of_ne_nil (proper.nonempty word listed)
    simpa using plain c (by simp [split])
  have first := shape.first proper listed separated boundary unmarked
    (head_of_stop (Apart.head name behindApart) stop)
  have quiet : p.Quiet before lead (word ++ (gap ++ (name.text ++ behind) ++ rest)) :=
    shape.quiet_lead proper plain split edge (head_of_stop ends stop)
  refine ⟨gap ++ name.text, behind, by simp, own, ?_, ?_⟩
  · have last : Apart (before ++ (token.text ++ gap) ++ name.text) behind :=
      behindApart.of_behind name.nonempty
    simpa using last
  · have passed := allBetween_pass quiet
    have whole : p.First (.between (before ++ lead) (word ++ (gap ++ name.text) ++ (behind ++ rest)))
        (before ++ lead ++ word ++ gap).length
        (.between (before ++ lead ++ (word ++ (gap ++ name.text))) (behind ++ rest)) := by
      simpa only [List.append_assoc] using first
    have matched := allBetween_found (by simp [name.nonempty]) whole
    simp only [List.append_assoc] at passed matched
    rw [split]
    simp only [List.append_assoc]
    rw [passed, matched, List.length_cons]

/-- The count of the pairs of tokens is that of the matches. -/
theorem count {head : Text} (shape : MatchesHeralded words name.text p) (proper : Heralds words)
    (before rest : Text) (plain : ∀ c ∈ head, Usage.typeMark c = false)
    (stop : ∀ c, rest.head? = some c → isBlank c = false ∧ isIdentifier c = false)
    (apart : Apart before head) :
    (p.allBetween before (head ++ rest)).length =
      heralded words name.text (lex head) + (p.allBetween (before ++ head) rest).length := by
  induction size : head.length using Nat.strong_induction_on generalizing head before with
  | _ n ih =>
      induction head using lexInduction with
      | nil => simp [lex, heralded]
      | blank c head blank _ =>
          have quiet : p.Quiet before [c] (head ++ rest) := shape.quiet_wordless proper
            (by simpa using isIdentifier_of_isBlank blank) (by simpa using plain c (by simp))
          have later := ih head.length (by rw [← size]; simp) (before ++ [c])
            (fun d member => plain d (List.mem_cons_of_mem c member))
            (.inl (by simpa using isIdentifier_of_isBlank blank)) rfl
          have passed := allBetween_pass quiet
          rw [List.cons_append, ← List.singleton_append, passed, later, lex_blank blank,
            List.append_assoc, List.singleton_append]
      | mark c head solid other _ =>
          have quiet : p.Quiet before [c] (head ++ rest) := shape.quiet_wordless proper
            (by simpa using other) (by simpa using plain c (by simp))
          have later := ih head.length (by rw [← size]; simp) (before ++ [c])
            (fun d member => plain d (List.mem_cons_of_mem c member)) (.inl (by simpa using other)) rfl
          have passed := allBetween_pass quiet
          rw [List.cons_append, ← List.singleton_append, passed, later, lex_mark solid other,
            heralded_pass fun herald => absurd herald (proper.not_endsIn_mark other),
            List.append_assoc, List.singleton_append]
      | word token head ends _ =>
          have own : ∀ c ∈ token.text, Usage.typeMark c = false := fun c member =>
            plain c (List.mem_append_left _ member)
          have shorter : head.length < n := by
            have some := List.length_pos_iff.mpr token.nonempty
            rw [← size, List.length_append]
            omega
          rw [lex_word token.nonempty token.proper ends]
          by_cases found : words.any (endsIn · token.text) = true ∧ (lex head).head? = some name.text
          · obtain ⟨herald, next⟩ := found
            obtain ⟨tokens, follows⟩ := List.head?_eq_some_iff.mp next
            obtain ⟨taken, behind, rfl, rfl, behindApart, once⟩ :=
              shape.found proper own stop apart ends herald follows
            have later := ih behind.length (by simp at shorter; omega) (before ++ (token.text ++ taken))
              (fun d member => plain d (by simp [member])) behindApart rfl
            rw [List.append_assoc, List.append_assoc, once, later, follows, heralded_found herald]
            simp only [List.append_assoc]
            omega
          · have quiet : p.Quiet before token.text (head ++ rest) := shape.quiet_word proper own stop ends
              fun herald next => found ⟨herald, next⟩
            have later := ih head.length shorter (before ++ token.text)
              (fun d member => plain d (List.mem_append_right _ member)) (.inr ends) rfl
            have passed := allBetween_pass quiet
            rw [List.append_assoc, passed, later, heralded_pass fun herald next => found ⟨herald, next⟩,
              List.append_assoc]

/-- Without a gap nothing matches. -/
theorem quiet_solid {stretch : Text} {mark : Char} (shape : MatchesHeralded words name.text p)
    (proper : Heralds words) (solid : ∀ c ∈ stretch, isBlank c = false)
    (plain : ∀ c ∈ stretch ++ [mark], Usage.typeMark c = false)
    (ends : isBlank mark = false ∧ isIdentifier mark = false) :
    p.Quiet before (stretch ++ [mark]) rest := by
  refine Quiet.of_places fun left right split => List.eq_nil_iff_forall_not_mem.mpr fun way member => ?_
  have unmarked : (right ++ mark :: rest).head?.any Usage.typeMark = false := by
    cases right with
    | nil => simpa using plain mark (by simp)
    | cons c right => simpa using plain c (by simp [split])
  obtain ⟨word, listed, gap, others, separated, -, same, -⟩ := (shape _ _ _ unmarked).mp member
  obtain ⟨b, gap, rfl⟩ := List.exists_cons_of_ne_nil separated.1
  have blank := separated.2 b List.mem_cons_self
  obtain ⟨behind, rfl, -⟩ : ∃ behind, right = word ++ [b] ++ behind ∧ _ := by
    refine exists_of_append (by simpa using same) fun c next inside => ?_
    obtain rfl : mark = c := by simpa using next
    rcases List.mem_append.mp inside with letter | space
    · simp [isIdentifier_of_isWord (proper.letters word listed mark letter)] at ends
    · simp [List.mem_singleton.mp space, blank] at ends
  have other := solid b (by simp [split])
  simp [blank] at other

/-- Where a match has the name: behind one of the words and a gap, and within its stretch. -/
theorem place {text : Text} {found : Match Nat} (shape : MatchesHeralded words name.text p)
    (plain : ∀ c ∈ text, Usage.typeMark c = false) (member : found ∈ p.all text) :
    (∃ lead, ∃ word ∈ words, ∃ gap, IsGap gap ∧ text.take found.value = lead ++ (word ++ gap)) ∧
      found.span.start ≤ found.value ∧ found.value < found.span.stop := by
  obtain ⟨lead, after, place, rfl, first, span, -⟩ := first_of_mem_all member
  have unmarked : after.head?.any Usage.typeMark = false := by
    cases after with
    | nil => rfl
    | cons c after => simpa using plain c (by simp)
  obtain ⟨word, listed, gap, others, separated, -, rfl, -, same⟩ :=
    (shape _ _ _ unmarked).mp first.mem
  obtain ⟨value, rfl⟩ := Prod.mk.inj same
  have some := List.length_pos_iff.mpr name.nonempty
  refine ⟨⟨lead, word, listed, gap, separated, ?_⟩, ?_, ?_⟩
  · have parts : lead ++ (word ++ (gap ++ (name.text ++ others))) =
        lead ++ word ++ gap ++ (name.text ++ others) := by simp
    rw [value, parts, List.take_left, List.append_assoc]
  · rw [span, value]
    simp
  · rw [span, value]
    simp only [Cursor.between_offset, List.length_append]
    omega

end MatchesHeralded

end ImportAudit.Script
