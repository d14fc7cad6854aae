import ImportAudit.Proofs.Codebase
import ImportAudit.Proofs.OtherForms
import ImportAudit.Proofs.Resolution
import ImportAudit.Proofs.Usage
import Mathlib.Data.List.Nodup

/-! Every mention becomes one link. The five forms of mentions are searched for one after the other, and
the matches are put in the order of their starts. A form is recognized by its first word and the
first character behind it that is not blank, so no two forms match at one place; the order is strict,
and the links of a text are the matches that stand for files within the root, each of them once. -/
namespace ImportAudit

namespace Text

theorem slice_infix {text : Text} {inner outer : Span} (starts : outer.start ≤ inner.start)
    (stops : inner.stop ≤ outer.stop) : text.slice inner <:+: text.slice outer := by
  have within : text.slice inner =
      ((text.slice outer).drop (inner.start - outer.start)).take (inner.stop - inner.start) := by
    unfold slice
    rw [List.drop_take, List.take_take, List.drop_drop]
    congr 2 <;> omega
  rw [within]
  exact (List.take_prefix _ _).isInfix.trans (List.drop_suffix _ _).isInfix

end Text

namespace Pattern

variable {α β : Type} {p q : Pattern α} {part : α → Span}

/-- However the pattern matches, a stretch that its value holds lies in the text it takes. -/
def Encloses (p : Pattern α) (part : α → Span) : Prop :=
  ∀ before after found, found ∈ p.ways (.between before after) →
    before.length ≤ (part found.1).start ∧ (part found.1).stop ≤ found.2.offset

namespace Encloses

theorem spanOf (p : Pattern Unit) : (spanOf p).Encloses id := by
  intro before after found member
  rw [ways_spanOf] at member
  obtain ⟨inner, -, rfl⟩ := List.mem_map.mp member
  exact ⟨Nat.le_refl _, Nat.le_refl _⟩

theorem either (first : p.Encloses part) (second : q.Encloses part) :
    (either p q).Encloses part := by
  intro before after found member
  rw [ways_either] at member
  rcases List.mem_append.mp member with member | member
  · exact first before after found member
  · exact second before after found member

/-- The stretch comes from what follows. -/
theorem after {next : α → Pattern β} {part : β → Span} (first : p.Advances)
    (later : ∀ a, (next a).Encloses part) : (p >>= next).Encloses part := by
  intro before rest found member
  obtain ⟨a, place, start, finish⟩ := mem_ways_bind.mp member
  obtain ⟨taken, rest, rfl, moved⟩ := first before rest (a, place) start
  obtain rfl : place = .between (before ++ taken) rest := moved
  obtain ⟨starts, stops⟩ := later a (before ++ taken) rest found finish
  rw [List.length_append] at starts
  exact ⟨by omega, stops⟩

/-- The stretch comes from the first part, and the value of what follows keeps it. -/
theorem before {next : α → Pattern β} {kept : β → Span} (first : p.Encloses part)
    (inside : p.Advances) (later : ∀ a, (next a).Advances)
    (keeps : ∀ a cursor, ∀ found ∈ (next a).ways cursor, kept found.1 = part a) :
    (p >>= next).Encloses kept := by
  intro before rest found member
  obtain ⟨a, place, start, finish⟩ := mem_ways_bind.mp member
  obtain ⟨starts, stops⟩ : before.length ≤ (part a).start ∧ (part a).stop ≤ place.offset :=
    first before rest (a, place) start
  obtain ⟨taken, rest, rfl, moved⟩ := inside before rest (a, place) start
  obtain rfl : place = .between (before ++ taken) rest := moved
  obtain ⟨more, rest, rfl, moved⟩ := later a (before ++ taken) rest found finish
  rw [keeps a _ found finish, moved]
  refine ⟨starts, Nat.le_trans stops ?_⟩
  simp

end Encloses
end Pattern

namespace Script
open Pattern Text

theorem specifier_encloses : specifier.Encloses id := by
  have between (quote : Char) : (quoted quote).Encloses id := by
    refine .after (.one _) fun _ => .before (.spanOf _) ?_ (fun _ => ?_) ?_
    · exact .spanOf (.bind (.one _) fun _ => .run _)
    · exact .bind (.one _) fun _ => .pure _
    · intro inner cursor found member
      obtain ⟨⟨⟩, place, -, finish⟩ := mem_ways_bind.mp member
      rw [ways_pure, List.mem_singleton] at finish
      rw [finish]
  exact (between _).either (between _)

theorem clauseImport_encloses : clauseImport.Encloses ClauseImport.specifier := by
  refine .after (.wordChars _) fun _ => .after (.bind (.one _) fun _ => .many _) fun _ =>
    .after typeModifier_advances fun _ => .after (.spanOf clauseText_advances) fun clause =>
      .after (.run _) fun _ => .after (.wordChars _) fun _ => .after (.run _) fun _ => ?_
  refine .before specifier_encloses specifier_advances (fun _ => .pure _) ?_
  intro target cursor found member
  rw [ways_pure, List.mem_singleton] at member
  rw [member, id]

theorem effectImport_encloses : effectImport.Encloses id :=
  .after (.wordChars _) fun _ => .after (.run _) fun _ => specifier_encloses

theorem reexport_encloses : reexport.Encloses id :=
  .after (.wordChars _) fun _ => .after (.run _) fun _ => .after typeModifier_advances fun _ =>
    .after (.either starExport_advances (.bind braced_advances fun _ => .pure _)) fun _ =>
      .after (.run _) fun _ => .after (.chars _) fun _ => .after (.run _) fun _ => specifier_encloses

theorem moduleCall_encloses (word : String) : (moduleCall word).Encloses id := by
  refine .after (.wordChars _) fun _ => .after (.run _) fun _ => .after (.one _) fun _ =>
    .after (.run _) fun _ => .before specifier_encloses specifier_advances (fun _ => ?_) ?_
  · exact .bind (.run _) fun _ => .bind (.one _) fun _ => .pure _
  · intro target cursor found member
    obtain ⟨⟨⟩, place, -, member⟩ := mem_ways_bind.mp member
    obtain ⟨⟨⟩, place, -, finish⟩ := mem_ways_bind.mp member
    rw [ways_pure, List.mem_singleton] at finish
    rw [finish]

theorem clause_of_isClauseChar {c : Char} (part : isClauseChar c = true) :
    isBlank c = true ∨ isTokenChar c = true := by
  simp only [isClauseChar, isTokenChar, Bool.or_eq_true] at part ⊢
  tauto

theorem mem_ways_clauseText {before after : Text} {found : Unit × Cursor}
    (way : found ∈ clauseText.ways (.between before after)) :
    ∃ taken rest, after = taken ++ rest ∧ (∀ c ∈ taken, isClauseChar c = true) ∧
      found = ((), .between (before ++ taken) rest) := by
  obtain ⟨⟨⟩, place, opened, way⟩ := mem_ways_bind.mp way
  obtain ⟨c, rest, rfl, first, ⟨⟩⟩ := mem_ways_one.mp opened
  rw [ways_either, List.mem_append] at way
  rcases way with short | long
  · rw [ways_pure, List.mem_singleton] at short
    exact ⟨[c], rest, rfl, by simpa using first, short⟩
  · obtain ⟨⟨⟩, place, next, way⟩ := mem_ways_bind.mp long
    obtain ⟨d, rest, rfl, second, ⟨⟩⟩ := mem_ways_one.mp next
    rw [ways_fewUntil] at way
    obtain ⟨place, kept, rfl⟩ := List.mem_map.mp way
    obtain ⟨taken, rest, rfl, all, rfl⟩ := Cursor.mem_through.mp (List.mem_of_mem_filter kept)
    exact ⟨c :: d :: taken, rest, rfl, by simpa [first, second] using all, by simp⟩

/-- The forms in which a script names another module. -/
inductive Form
  | clauseImport
  | effectImport
  | reexport
  | requireCall
  | importCall
deriving DecidableEq, Repr

namespace Form

def all : List Form := [clauseImport, effectImport, reexport, requireCall, importCall]

/-- The mentions of one form, one for each match of its pattern. -/
def mentions (text : Text) : Form → List Mention
  | clauseImport => (Script.clauseImport.all text).map (.ofClauseImport text)
  | effectImport => (Script.effectImport.all text).map (.ofBare text)
  | reexport => (Script.reexport.all text).map (.ofBare text)
  | requireCall => (Script.requireCall.all text).map (.ofCall .requireCall text)
  | importCall => (Script.importCall.all text).map (.ofCall .importCall text)

/-- The first word of a form. -/
def word : Form → Text
  | clauseImport | effectImport | importCall => "import".toList
  | reexport => "export".toList
  | requireCall => "require".toList

/-- What comes first behind the word and the blanks after it. -/
def isMark : Form → Char → Bool
  | clauseImport | reexport => isTokenChar
  | effectImport => isQuote
  | requireCall | importCall => (· == '(')

/-- The text starts as the form does. -/
def Opens (form : Form) (text : Text) : Prop :=
  ∃ blanks mark rest, text = form.word ++ (blanks ++ mark :: rest) ∧
    (∀ c ∈ blanks, isBlank c = true) ∧ form.isMark mark = true

theorem isBlank_of_isMark {form : Form} {c : Char} (marked : form.isMark c = true) :
    isBlank c = false := by
  cases form with
  | clauseImport | reexport => exact isBlank_of_isTokenChar marked
  | effectImport => rcases isQuote_iff.mp marked with rfl | rfl <;> decide
  | requireCall | importCall =>
      obtain rfl : c = '(' := by simpa [isMark] using marked
      decide

/-- The form with a word and a mark: for `import` the mark decides. -/
def ofWord (word : Text) (mark : Char) : Form :=
  if word = reexport.word then reexport
  else if word = requireCall.word then requireCall
  else if isQuote mark then effectImport
  else if mark == '(' then importCall
  else clauseImport

theorem ofWord_word {form : Form} {c : Char} (marked : form.isMark c = true) :
    ofWord form.word c = form := by
  cases form with
  | reexport => exact if_pos rfl
  | requireCall => rw [ofWord, if_neg (by decide), if_pos rfl]
  | effectImport =>
      have quote : isQuote c = true := marked
      rw [ofWord, if_neg (by decide), if_neg (by decide), if_pos quote]
  | importCall =>
      obtain rfl : c = '(' := by simpa [isMark] using marked
      decide
  | clauseImport =>
      have quote : isQuote c = false := isQuote_of_clause (.inr marked)
      have paren : (c == '(') = false := by
        rw [beq_eq_false_iff_ne]
        rintro rfl
        exact absurd marked (by decide)
      rw [ofWord, if_neg (by decide), if_neg (by decide), quote, paren]
      rfl

/-- The words of different forms start with different letters. -/
theorem word_eq_of_head {form other : Form} {rest rest' : Text}
    (same : form.word ++ rest = other.word ++ rest') : form.word = other.word := by
  have heads : form.word.head? = other.word.head? := by
    have first := congrArg List.head? same
    rwa [List.head?_append_of_ne_nil _ (by cases form <;> decide),
      List.head?_append_of_ne_nil _ (by cases other <;> decide)] at first
  revert heads
  cases form <;> cases other <;> decide

theorem eq_of_opens {form other : Form} {text : Text} (opens : form.Opens text)
    (opens' : other.Opens text) : form = other := by
  obtain ⟨blanks, mark, rest, rfl, blank, marked⟩ := opens
  obtain ⟨blanks', mark', rest', same, blank', marked'⟩ := opens'
  have words : form.word = other.word := word_eq_of_head same
  have tails : blanks ++ mark :: rest = blanks' ++ mark' :: rest' :=
    List.append_cancel_left (words ▸ same)
  have solid : ∀ {blanks : Text}, (∀ c ∈ blanks, isBlank c = true) →
      ∀ c ∈ blanks, (!isBlank c) = false := fun blank c member => by simp [blank c member]
  obtain ⟨-, rfl, -⟩ := append_cons_inj tails (solid blank) (solid blank')
    (by simp [isBlank_of_isMark marked]) (by simp [isBlank_of_isMark marked'])
  rw [← ofWord_word marked, words, ofWord_word marked']

/-- Blanks and the characters of a clause begin with blanks and one character of a clause. -/
theorem exists_mark {text rest : Text} {c : Char}
    (all : ∀ d ∈ text, isBlank d = true ∨ isTokenChar d = true) (part : isTokenChar c = true) :
    ∃ blanks mark others, text ++ c :: rest = blanks ++ mark :: others ∧
      (∀ d ∈ blanks, isBlank d = true) ∧ isTokenChar mark = true := by
  induction text with
  | nil => exact ⟨[], c, rest, rfl, by simp, part⟩
  | cons d text ih =>
      rcases all d List.mem_cons_self with blank | marked
      · obtain ⟨blanks, mark, others, same, blanksOnly, marked⟩ :=
          ih fun e member => all e (List.mem_cons_of_mem _ member)
        exact ⟨d :: blanks, mark, others, by simp [same], by simpa [blank] using blanksOnly, marked⟩
      · exact ⟨[], d, text ++ c :: rest, rfl, by simp, marked⟩

theorem opens_clauseImport {before after : Text} {found : ClauseImport × Cursor}
    (way : found ∈ Script.clauseImport.ways (.between before after)) :
    clauseImport.Opens after := by
  obtain ⟨⟨⟩, place, started, way⟩ := mem_ways_bind.mp way
  obtain ⟨-, rest, rfl, ⟨⟩⟩ := mem_ways_wordChars.mp started
  obtain ⟨⟨⟩, place, spaced, way⟩ := mem_ways_bind.mp way
  obtain ⟨gap, rest, rfl, -, blank, ⟨⟩⟩ := mem_ways_many1.mp spaced
  obtain ⟨⟨⟩, place, optional, way⟩ := mem_ways_bind.mp way
  obtain ⟨typeOnly, modifier, rest, written, rfl, ⟨⟩⟩ := mem_ways_typeModifier.mp optional
  obtain ⟨span, place, middle, way⟩ := mem_ways_bind.mp way
  rw [ways_spanOf, List.mem_map] at middle
  obtain ⟨⟨⟨⟩, place⟩, middle, ⟨⟩⟩ := middle
  obtain ⟨clause, rest, rfl, proper, ⟨⟩⟩ := mem_ways_clauseText middle
  obtain ⟨lead, trail, quote, inner, rest, leadBlank, -, -, -, rfl, -⟩ := mem_ways_afterClause way
  -- Up to the word `from` there are only blanks and characters of a clause.
  have all : ∀ c ∈ gap ++ modifier ++ clause ++ lead, isBlank c = true ∨ isTokenChar c = true := by
    intro c member
    simp only [List.mem_append] at member
    rcases member with ((space | early) | inside) | space
    · exact .inl (blank c space)
    · exact (Layout.mem_modifier written c early).imp id isTokenChar_of_isIdentifier
    · exact clause_of_isClauseChar (proper c inside)
    · exact .inl (leadBlank c space)
  obtain ⟨blanks, mark, others, same, blanksOnly, marked⟩ :=
    @exists_mark _ ("rom".toList ++ (trail ++ quote :: (inner ++ quote :: rest))) 'f' all (by decide)
  refine ⟨blanks, mark, others, ?_, blanksOnly, marked⟩
  have from_eq : Identifier.fromWord.text = 'f' :: "rom".toList := by decide
  rw [← same, from_eq]
  simp only [List.append_assoc, List.cons_append]
  rfl

theorem opens_effectImport {before after : Text} {found : Span × Cursor}
    (way : found ∈ Script.effectImport.ways (.between before after)) :
    effectImport.Opens after := by
  obtain ⟨blanks, quote, inner, rest, blank, quoted, -, rfl, -⟩ := mem_ways_effectImport way
  exact ⟨blanks, quote, _, List.append_assoc _ _ _, blank, quoted⟩

theorem opens_reexport {before after : Text} {found : Span × Cursor}
    (way : found ∈ Script.reexport.ways (.between before after)) : reexport.Opens after := by
  obtain ⟨blanks, typeOnly, modifier, mark, rest, blank, written, marks, rfl⟩ :=
    mem_ways_reexport way
  have all : ∀ c ∈ blanks ++ modifier, isBlank c = true ∨ isTokenChar c = true := by
    intro c member
    rcases List.mem_append.mp member with space | inside
    · exact .inl (blank c space)
    · exact (Layout.mem_modifier written c inside).imp id isTokenChar_of_isIdentifier
  have marked : isTokenChar mark = true := by rcases marks with rfl | rfl <;> decide
  obtain ⟨blanks, mark, others, same, blanksOnly, marked⟩ := @exists_mark _ rest mark all marked
  refine ⟨blanks, mark, others, ?_, blanksOnly, marked⟩
  rw [← same, List.append_assoc]
  rfl

theorem opens_requireCall {before after : Text} {found : Span × Cursor}
    (way : found ∈ Script.requireCall.ways (.between before after)) : requireCall.Opens after := by
  obtain ⟨blanks, rest, blank, rfl⟩ := mem_ways_moduleCall way
  exact ⟨blanks, '(', rest, List.append_assoc _ _ _, blank, rfl⟩

theorem opens_importCall {before after : Text} {found : Span × Cursor}
    (way : found ∈ Script.importCall.ways (.between before after)) : importCall.Opens after := by
  obtain ⟨blanks, rest, blank, rfl⟩ := mem_ways_moduleCall way
  exact ⟨blanks, '(', rest, List.append_assoc _ _ _, blank, rfl⟩

/-- How a mention of a form stands in a text: it starts as the form does, takes some text, and holds
its specifier. -/
structure Shapes (form : Form) (text : Text) (mention : Mention) : Prop where
  opens : form.Opens (text.drop mention.span.start)
  start_lt : mention.span.start < mention.span.stop
  stop_le : mention.span.stop ≤ text.length
  specifier_infix : mention.specifier.toList <:+: text.slice mention.span

theorem Shapes.of_match {α : Type} {p : Pattern α} {part : α → Span} {form : Form} {text : Text}
    {found : Match α} {mention : Mention} (advances : p.Advances) (encloses : p.Encloses part)
    (opens : ∀ {before after} {found : α × Cursor}, found ∈ p.ways (.between before after) →
      form.Opens after)
    (member : found ∈ p.all text) (span : mention.span = found.span)
    (named : mention.specifier = wordAt text (part found.value)) : form.Shapes text mention := by
  obtain ⟨before, after, place, rfl, first, located, advance⟩ := first_of_mem_all member
  obtain ⟨starts, stops⟩ := encloses before after _ first.mem
  have within := advances.stop_le member
  rw [← span] at within
  rw [located] at span
  constructor
  · simpa [span] using opens first.mem
  · simpa [span] using advance
  · exact within
  · rw [named, wordAt, String.toList_ofList, span]
    exact slice_infix starts stops

theorem shapes_of_mem {form : Form} {text : Text} {mention : Mention}
    (member : mention ∈ form.mentions text) : form.Shapes text mention := by
  cases form with
  | clauseImport =>
      obtain ⟨found, listed, rfl⟩ := List.mem_map.mp member
      exact .of_match clauseImport_advances clauseImport_encloses opens_clauseImport listed rfl rfl
  | effectImport =>
      obtain ⟨found, listed, rfl⟩ := List.mem_map.mp member
      exact .of_match effectImport_advances effectImport_encloses opens_effectImport listed rfl rfl
  | reexport =>
      obtain ⟨found, listed, rfl⟩ := List.mem_map.mp member
      exact .of_match reexport_advances reexport_encloses opens_reexport listed rfl rfl
  | requireCall =>
      obtain ⟨found, listed, rfl⟩ := List.mem_map.mp member
      exact .of_match (moduleCall_advances _) (moduleCall_encloses _) opens_requireCall listed rfl rfl
  | importCall =>
      obtain ⟨found, listed, rfl⟩ := List.mem_map.mp member
      exact .of_match (moduleCall_advances _) (moduleCall_encloses _) opens_importCall listed rfl rfl

theorem mentions_ascend (form : Form) (text : Text) :
    (form.mentions text).Pairwise fun first second => first.span.start < second.span.start := by
  cases form <;>
    exact List.pairwise_map.mpr (allFrom_pairwise _ 0 none 0 text)

/-- No two forms match at one offset, and none matches there twice. -/
theorem eq_of_start {form other : Form} {text : Text} {mention mention' : Mention}
    (member : mention ∈ form.mentions text) (member' : mention' ∈ other.mentions text)
    (same : mention.span.start = mention'.span.start) : form = other ∧ mention = mention' := by
  have opens := (shapes_of_mem member).opens
  rw [same] at opens
  obtain rfl : form = other := eq_of_opens opens (shapes_of_mem member').opens
  have distinct : ((form.mentions text).map fun mention => mention.span.start).Nodup :=
    List.pairwise_map.mpr ((form.mentions_ascend text).imp Nat.ne_of_lt)
  exact ⟨rfl, List.inj_on_of_nodup_map distinct member member' same⟩

/-- The kinds of the bindings that a form makes. -/
def binds : Form → List BindingKind
  | clauseImport => [.defaultExport, .wholeModule, .named]
  | effectImport | reexport => []
  | requireCall => [.requireCall]
  | importCall => [.importCall]

theorem kind_of_mem {form : Form} {text : Text} {mention : Mention} {binding : Binding}
    (member : mention ∈ form.mentions text) (bound : binding ∈ mention.bindings) :
    binding.kind ∈ form.binds := by
  cases form with
  | clauseImport =>
      obtain ⟨found, -, rfl⟩ := List.mem_map.mp member
      exact clauseBindings_kind bound
  | effectImport | reexport =>
      obtain ⟨found, -, rfl⟩ := List.mem_map.mp member
      cases bound
  | requireCall | importCall =>
      obtain ⟨found, -, rfl⟩ := List.mem_map.mp member
      rw [List.mem_singleton.mp bound]
      exact List.mem_singleton_self _

end Form

theorem mentionsByForm_eq (text : Text) :
    mentionsByForm text = Form.all.flatMap (Form.mentions text) := by
  simp [mentionsByForm, Form.all, Form.mentions]

theorem mentions_perm (text : Text) :
    (mentions text).Perm (Form.all.flatMap (Form.mentions text)) :=
  mentionsByForm_eq text ▸ List.mergeSort_perm _ _

theorem mentions_strict (text : Text) :
    (mentions text).Pairwise fun first second => first.span.start < second.span.start := by
  have ordered : (mentions text).Pairwise fun first second =>
      first.span.start ≤ second.span.start := by
    have sorted : (mentions text).Pairwise fun first second =>
        decide (first.span.start ≤ second.span.start) = true := by
      apply List.pairwise_mergeSort
      · intro first second third before after
        simp only [decide_eq_true_eq] at before after ⊢
        omega
      · intro first second
        simp only [Bool.or_eq_true, decide_eq_true_eq]
        omega
    exact sorted.imp of_decide_eq_true
  have distinct : (Form.all.flatMap (Form.mentions text)).Pairwise fun first second =>
      first.span.start ≠ second.span.start := by
    rw [List.pairwise_flatMap]
    constructor
    · intro form _
      exact (form.mentions_ascend text).imp Nat.ne_of_lt
    · have apart : Form.all.Pairwise (· ≠ ·) := by decide
      refine apart.imp fun different first listed second listed' same => ?_
      exact different (Form.eq_of_start listed listed' same).1
  have apart := ((mentions_perm text).pairwise_iff Ne.symm).mpr distinct
  exact (ordered.and apart).imp fun both => Nat.lt_of_le_of_ne both.1 both.2

end Script

/-- What a link holds of the text. -/
def Link.mention (link : Link) : Script.Mention := ⟨link.span, link.specifier, link.bindings⟩

namespace Source

/-- The specifier of a mention stands for a file within the root. -/
def resolves (disk : Disk) (root : Path) (extensions : List String) (importer : Path)
    (mention : Script.Mention) : Bool :=
  (Resolution.resolve? disk extensions importer mention.specifier).any (·.isWithin root)

theorem linksOf_mentions (disk : Disk) (root : Path) (extensions : List String) (importer : Path)
    (text : Text) :
    (linksOf disk root extensions importer text).map Link.mention =
      (Script.mentions text).filter (resolves disk root extensions importer) := by
  have each : ∀ mention, (link? disk root extensions importer text mention).map Link.mention =
      Option.guard (resolves disk root extensions importer) mention := by
    intro mention
    unfold link? Option.guard
    cases found : Resolution.resolve? disk extensions importer mention.specifier with
    | none => simp [resolves, found]
    | some target =>
        by_cases within : target.isWithin root = true <;>
          simp [resolves, found, within, Link.mention]
  rw [linksOf, List.map_filterMap, ← List.filterMap_eq_filter]
  exact List.filterMap_congr fun mention _ => each mention

/-- A link is a mention of one of the forms. -/
theorem exists_form {disk : Disk} {root importer : Path} {extensions : List String} {text : Text}
    {link : Link} (member : link ∈ linksOf disk root extensions importer text) :
    ∃ form : Script.Form, link.mention ∈ form.mentions text := by
  have listed : link.mention ∈ (linksOf disk root extensions importer text).map Link.mention :=
    List.mem_map_of_mem member
  rw [linksOf_mentions] at listed
  obtain ⟨form, -, found⟩ := List.mem_flatMap.mp
    ((Script.mentions_perm text).mem_iff.mp (List.mem_of_mem_filter listed))
  exact ⟨form, found⟩

theorem linksOf_strict (disk : Disk) (root : Path) (extensions : List String) (importer : Path)
    (text : Text) : (linksOf disk root extensions importer text).Pairwise fun first second =>
      first.span.start < second.span.start := by
  apply (Script.mentions_strict text).filterMap
  intro first second before link linked later linked'
  rw [(link?_eq_some linked).2.2, (link?_eq_some linked').2.2]
  exact before

theorem relative_of_mem {disk : Disk} {root importer : Path} {extensions : List String} {text : Text}
    {link : Link} (member : link ∈ linksOf disk root extensions importer text) :
    ['.'] <+: link.specifier.toList := by
  obtain ⟨mention, -, linked⟩ := List.mem_filterMap.mp member
  obtain ⟨resolved, -, same⟩ := link?_eq_some linked
  rw [same]
  exact List.isPrefixOf_iff_prefix.mp (Resolution.resolve?_candidate resolved).1

/-- The links of a text are the matches of the five forms whose specifiers stand for files within the
root, each of them once and in the strict order of their starts: no two forms match at one offset. A
link lies within the text and holds its relative specifier, knows its line and leads to a file within
the root. A call binds one name, and an import for effect or a re-export binds none. -/
theorem linksOf_matches (disk : Disk) (root : Path) (extensions : List String) (importer : Path)
    (text : Text) :
    ((linksOf disk root extensions importer text).map Link.mention).Perm
      ((Script.Form.all.flatMap (Script.Form.mentions text)).filter
        (resolves disk root extensions importer)) ∧
    ((linksOf disk root extensions importer text).Pairwise fun first second =>
      first.span.start < second.span.start) ∧
    (∀ form other : Script.Form, ∀ mention ∈ form.mentions text, ∀ mention' ∈ other.mentions text,
      mention.span.start = mention'.span.start → form = other ∧ mention = mention') ∧
    ∀ link ∈ linksOf disk root extensions importer text,
      (link.span.start < link.span.stop ∧ link.span.stop ≤ text.length) ∧
      (['.'] <+: link.specifier.toList ∧ link.specifier.toList <:+: text.slice link.span) ∧
      link.line = ((text.take link.span.start).count '\n' + 1 : Nat) ∧
      (Resolution.resolve? disk extensions importer link.specifier = some link.target ∧
        disk.isFile link.target = true ∧ link.target.isWithin root = true) ∧
      ∃ form : Script.Form, link.mention ∈ form.mentions text ∧
        (form = .requireCall ∨ form = .importCall → link.bindings.length = 1) ∧
        (form = .effectImport ∨ form = .reexport → link.bindings = []) := by
  refine ⟨?_, ?_, fun form other mention listed mention' listed' =>
    Script.Form.eq_of_start listed listed', ?_⟩
  · rw [linksOf_mentions]
    exact (Script.mentions_perm text).filter _
  · exact linksOf_strict disk root extensions importer text
  · intro link member
    obtain ⟨mention, -, linked⟩ := List.mem_filterMap.mp member
    obtain ⟨resolved, within, same⟩ := link?_eq_some linked
    obtain ⟨form, found⟩ := exists_form member
    have shapes := Script.Form.shapes_of_mem found
    have specifier : link.specifier = mention.specifier := by rw [same]
    rw [← specifier] at resolved
    refine ⟨⟨shapes.start_lt, shapes.stop_le⟩, ⟨?_, shapes.specifier_infix⟩, ?_,
      ⟨resolved, Resolution.resolve?_isFile resolved, within⟩, form, found, ?_, ?_⟩
    · exact relative_of_mem member
    · rw [same, ← text.lineOf_eq]
    · rintro (rfl | rfl)
      · obtain ⟨_, -, called⟩ := List.mem_map.mp found
        exact congrArg List.length (congrArg Script.Mention.bindings called).symm
      · obtain ⟨_, -, called⟩ := List.mem_map.mp found
        exact congrArg List.length (congrArg Script.Mention.bindings called).symm
    · rintro (rfl | rfl)
      · obtain ⟨_, -, bare⟩ := List.mem_map.mp found
        exact (congrArg Script.Mention.bindings bare).symm
      · obtain ⟨_, -, bare⟩ := List.mem_map.mp found
        exact (congrArg Script.Mention.bindings bare).symm

end Source
end ImportAudit
