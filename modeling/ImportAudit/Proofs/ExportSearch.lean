import ImportAudit.Proofs.ExportStatement
import ImportAudit.Proofs.OtherForms

/-! What is read from a text piece by piece, and the searches for exported lists and whole modules. Both
start with the word `export`, which may also be part of any name in a statement, and then need a mark: a
brace or a star. A statement is cut at its marks; a search that needs another mark passes over such a piece,
and where it matches in a statement of another form, it finds an empty list. -/
namespace ImportAudit

namespace Pattern

variable {α : Type} {p : Pattern α} {before stretch rest : Text}

/-- Where every match lies within the stretch, the search goes on behind it. -/
theorem allBetween_contained {holds : α → Prop}
    (contained : ∀ left right, stretch = left ++ right → right ≠ [] →
      ∀ found ∈ p.ways (.between (before ++ left) (right ++ rest)), holds found.1 ∧
        ∃ taken more, taken ≠ [] ∧ right = taken ++ more ∧
          found.2 = .between (before ++ left ++ taken) (more ++ rest)) :
    ∃ inside, p.allBetween before (stretch ++ rest) = inside ++ p.allBetween (before ++ stretch) rest ∧
      ∀ found ∈ inside, holds found.value := by
  induction size : stretch.length using Nat.strong_induction_on generalizing before stretch with
  | _ n ih =>
      -- What holds of the places of the stretch holds of those behind a first part of it.
      have later {taken more : Text} (split : stretch = taken ++ more) (some : taken ≠ []) :
          ∃ inside, p.allBetween (before ++ taken) (more ++ rest) =
            inside ++ p.allBetween (before ++ stretch) rest ∧ ∀ found ∈ inside, holds found.value := by
        have shorter : more.length < n := by
          have positive := List.length_pos_iff.mpr some
          rw [← size, split, List.length_append]
          omega
        have further := @ih more.length shorter (before ++ taken) more ?_ rfl
        · rwa [List.append_assoc, ← split] at further
        · intro left right divided nonempty found way
          rw [List.append_assoc] at way ⊢
          exact contained (taken ++ left) right (by rw [split, divided, List.append_assoc]) nonempty
            found way
      cases stretch with
      | nil => exact ⟨[], by simp, by simp⟩
      | cons c stretch =>
          by_cases quiet : p.ways (.between before (c :: (stretch ++ rest))) = []
          · have pass : p.Quiet before [c] (stretch ++ rest) :=
              Quiet.cons quiet fun left d right split => by simp at split
            have passed := allBetween_pass pass
            obtain ⟨inside, found, each⟩ := @later [c] stretch rfl (by simp)
            exact ⟨inside, passed.trans found, each⟩
          · obtain ⟨⟨a, place⟩, others, ways⟩ := List.exists_cons_of_ne_nil quiet
            have first : p.First (.between before (c :: stretch ++ rest)) a place := by
              simp [First, ways]
            obtain ⟨held, taken, more, some, split, moved⟩ :=
              contained [] (c :: stretch) rfl (by simp) (a, place) (by simpa using first.mem)
            obtain rfl : place = .between (before ++ taken) (more ++ rest) := by simpa using moved
            rw [split, List.append_assoc] at first
            obtain ⟨inside, found, each⟩ := later split some
            refine ⟨⟨⟨before.length, (before ++ taken).length⟩, a⟩ :: inside, ?_,
              List.forall_mem_cons.mpr ⟨held, each⟩⟩
            rw [split, List.append_assoc, allBetween_found some first, found, ← split]
            rfl

end Pattern

namespace Script
open Pattern Text

/-- Whatever comes before and behind the stretch, the search finds matches in it from which the names are
read, and goes on behind it. -/
def Reads {α : Type} (p : Pattern α) (read : Text → α → List Text) (stretch : Text)
    (names : List Text) : Prop :=
  ∀ before rest, before.getLast?.any isWord = false →
    ∃ inside, p.allBetween before (stretch ++ rest) = inside ++ p.allBetween (before ++ stretch) rest ∧
      inside.flatMap (fun found => read (before ++ (stretch ++ rest)) found.value) = names

namespace Reads

variable {α : Type} {p : Pattern α} {read : Text → α → List Text} {stretch second taken more : Text}
  {names others : List Text}

theorem nil : Reads p read [] [] := fun before rest _ => ⟨[], by simp, rfl⟩

theorem append (first : Reads p read stretch names) (later : Reads p read second others)
    (nonempty : stretch ≠ []) (ends : stretch.getLast?.any isWord = false) :
    Reads p read (stretch ++ second) (names ++ others) := by
  intro before rest edge
  obtain ⟨inside, found, own⟩ := first before (second ++ rest) edge
  obtain ⟨inside', found', own'⟩ := later (before ++ stretch) rest
    (by rwa [List.getLast?_append_of_ne_nil _ nonempty])
  refine ⟨inside ++ inside', ?_, ?_⟩
  · rw [List.append_assoc, found, found', List.append_assoc, List.append_assoc]
  · rw [List.append_assoc] at own'
    rw [List.flatMap_append, List.append_assoc, own, own']

theorem of_quiet (quiet : ∀ before rest, p.Quiet before stretch rest) : Reads p read stretch [] :=
  fun before rest _ => ⟨[], allBetween_pass (quiet before rest), rfl⟩

/-- One match at the start, and none behind it. -/
theorem of_found (nonempty : taken ≠ [])
    (found : ∀ before rest, before.getLast?.any isWord = false → ∃ a,
      p.First (.between before (taken ++ (more ++ rest))) a (.between (before ++ taken) (more ++ rest)) ∧
        read (before ++ (taken ++ (more ++ rest))) a = names)
    (quiet : ∀ before rest, p.Quiet before more rest) : Reads p read (taken ++ more) names := by
  intro before rest edge
  obtain ⟨a, first, own⟩ := found before rest edge
  refine ⟨[⟨⟨before.length, (before ++ taken).length⟩, a⟩], ?_, ?_⟩
  · rw [List.append_assoc, allBetween_found nonempty first, allBetween_pass (quiet _ rest),
      List.append_assoc]
    rfl
  · rw [List.append_assoc, List.flatMap_singleton]
    exact own

theorem flatMap {σ : Type} {render : σ → Text} {own : σ → List Text}
    (each : ∀ s, Reads p read (render s) (own s)) (nonempty : ∀ s, render s ≠ [])
    (ends : ∀ s, (render s).getLast?.any isWord = false) (parts : List σ) :
    Reads p read (parts.flatMap render) (parts.flatMap own) := by
  induction parts with
  | nil => exact .nil
  | cons part parts ih => exact (each part).append ih (nonempty part) (ends part)

theorem all_eq {text : Text} (reads : Reads p read text names) :
    (p.all text).flatMap (fun found => read text found.value) = names := by
  obtain ⟨inside, found, own⟩ := reads [] [] rfl
  simp only [List.append_nil, List.nil_append, allBetween_nil] at found own
  rw [all_eq_allBetween, found, own]

end Reads

/-- The characters that set the parts of an export statement apart. -/
def isDivider (c : Char) : Bool := c == '{' || c == '}' || c == '*' || c == ';'

theorem isDivider_of_plain {c : Char} (plain : isBlank c = true ∨ isIdentifier c = true) :
    isDivider c = false := by
  refine Bool.eq_false_iff.mpr fun marked => ?_
  simp only [isDivider, Bool.or_eq_true, beq_iff_eq] at marked
  obtain (((rfl | rfl) | rfl) | rfl) := marked <;> exact absurd plain (by decide)

theorem isWord_of_isDivider {c : Char} (marked : isDivider c = true) : isWord c = false := by
  simp only [isDivider, Bool.or_eq_true, beq_iff_eq] at marked
  obtain (((rfl | rfl) | rfl) | rfl) := marked <;> decide

/-- Behind a mark the search goes on as it does behind a line end. -/
theorem Reads.append_mark {α : Type} {p : Pattern α} {read : Text → α → List Text} {stretch second : Text}
    {names others : List Text} {c : Char} (first : Reads p read (stretch ++ [c]) names)
    (marked : isDivider c = true) (later : Reads p read second others) :
    Reads p read (stretch ++ [c] ++ second) (names ++ others) := by
  refine first.append later (by simp) ?_
  rw [List.getLast?_concat]
  exact isWord_of_isDivider marked

section Unmarked

theorem unmarked_of_all {text : Text} (all : text.all (fun c => !isDivider c) = true) :
    ∀ c ∈ text, isDivider c = false := by
  simpa using all

theorem Identifier.unmarked (name : Identifier) : ∀ c ∈ name.text, isDivider c = false :=
  fun c member => isDivider_of_plain (.inr (name.proper c member))

theorem optionalWord_unmarked (there : Bool) {word : String}
    (proper : word.toList.all isIdentifier = true) :
    ∀ c ∈ optionalWord there word, isDivider c = false :=
  fun _ member => isDivider_of_plain (mem_optionalWord (List.all_eq_true.mp proper) member)

theorem Declaration.modifiers_unmarked (declaration : Declaration) :
    ∀ c ∈ declaration.modifiers, isDivider c = false := by
  simp only [Declaration.modifiers, Declaration.otherModifiers, List.forall_mem_append]
  exact ⟨optionalWord_unmarked _ (by decide), optionalWord_unmarked _ (by decide),
    optionalWord_unmarked _ (by decide), optionalWord_unmarked _ (by decide)⟩

theorem ExportSource.unmarked (source : ExportSource) : ∀ c ∈ source.render, isDivider c = false := by
  have inside : ∀ c ∈ source.text, isDivider c = false := by
    intro c member
    rcases source.proper c member with letter | rfl | rfl | rfl
    · exact isDivider_of_plain (.inr (Bool.or_eq_true_iff.mpr (.inl letter)))
    all_goals decide
  have quote : isDivider source.quote.char = false := by cases source.quote <;> decide
  have word : ∀ c ∈ " from ".toList, isDivider c = false := unmarked_of_all (by decide)
  refine List.forall_mem_append.mpr ⟨word, List.forall_mem_cons.mpr ⟨quote, ?_⟩⟩
  exact List.forall_mem_append.mpr ⟨inside, List.forall_mem_singleton.mpr quote⟩

namespace ExportStatement

theorem source_unmarked (source? : Option ExportSource) :
    ∀ c ∈ (source?.map ExportSource.render).getD [], isDivider c = false := by
  cases source? with
  | none => exact List.forall_mem_nil _
  | some source => exact source.unmarked

theorem start_unmarked : ∀ c ∈ Identifier.exportWord.text ++ [' '], isDivider c = false :=
  List.forall_mem_append.mpr ⟨Identifier.exportWord.unmarked, List.forall_mem_singleton.mpr (by decide)⟩

/-- A declaration cut at its marks: the star of a generator, if it is one, and the braces behind the name, if
there are any. -/
theorem declaration_shape (declared : Declaration) : ∃ lead plain ends,
    (declaration declared).render = lead ++ (plain ++ (ends ++ [';', '\n'])) ∧
    (∀ c ∈ plain, isDivider c = false) ∧ (ends = [] ∨ ends = ['{', '}']) ∧
    (lead = [] ∨ ∃ stretch, lead = stretch ++ ['n'] ++ ['*'] ∧
      ∀ c ∈ stretch ++ ['n'], isDivider c = false) := by
  have space : ∀ c ∈ [' '], isDivider c = false := List.forall_mem_singleton.mpr (by decide)
  have start := List.forall_mem_append.mpr ⟨start_unmarked, declared.modifiers_unmarked⟩
  have behind : ∃ plain ends, declared.kind.tail = plain ++ ends ∧ (∀ c ∈ plain, isDivider c = false) ∧
      (ends = [] ∨ ends = ['{', '}']) := by
    cases declared.kind with
    | constant | letVariable | varVariable =>
        exact ⟨" = 1".toList, [], rfl, unmarked_of_all (by decide), .inl rfl⟩
    | function => exact ⟨"() ".toList, ['{', '}'], rfl, unmarked_of_all (by decide), .inr rfl⟩
    | objectClass | interface | enumeration | constEnumeration =>
        exact ⟨[' '], ['{', '}'], rfl, space, .inr rfl⟩
    | typeAlias target =>
        have equals : ∀ c ∈ " = ".toList, isDivider c = false := unmarked_of_all (by decide)
        exact ⟨" = ".toList ++ target.text, [], (List.append_nil _).symm,
          List.forall_mem_append.mpr ⟨equals, target.unmarked⟩, .inl rfl⟩
  have words : (∀ c ∈ declared.kind.word.toList, isDivider c = false) ∨
      declared.kind.word.toList = "functio".toList ++ ['n'] ++ ['*'] := by
    cases declared.kind with
    | function generator =>
        cases generator with
        | false => exact .inl (unmarked_of_all (by decide))
        | true => exact .inr rfl
    | typeAlias target => exact .inl Identifier.typeWord.unmarked
    | _ => exact .inl (unmarked_of_all (by decide))
  obtain ⟨plain, ends, split, unmarked, closes⟩ := behind
  have named := List.forall_mem_append.mpr ⟨declared.name.unmarked, unmarked⟩
  rcases words with word | generator
  · refine ⟨[], Identifier.exportWord.text ++ [' '] ++ declared.modifiers ++ declared.kind.word.toList ++
      ([' '] ++ (declared.name.text ++ plain)), ends, ?_, ?_, closes, .inl rfl⟩
    · rw [render_declaration, Declaration.lead, split]
      simp only [List.append_assoc, List.nil_append]
    · exact List.forall_mem_append.mpr ⟨List.forall_mem_append.mpr ⟨start, word⟩,
        List.forall_mem_append.mpr ⟨space, named⟩⟩
  · refine ⟨Identifier.exportWord.text ++ [' '] ++ declared.modifiers ++ "functio".toList ++ ['n'] ++ ['*'],
      [' '] ++ (declared.name.text ++ plain), ends, ?_, ?_, closes, .inr ⟨_, rfl, ?_⟩⟩
    · rw [render_declaration, Declaration.lead, split, generator]
      simp only [List.append_assoc]
    · exact List.forall_mem_append.mpr ⟨space, named⟩
    · have letters : ∀ c ∈ "functio".toList ++ ['n'], isDivider c = false := unmarked_of_all (by decide)
      rw [List.append_assoc]
      exact List.forall_mem_append.mpr ⟨start, letters⟩

theorem inner_unmarked (items : List ExportItem) :
    ∀ c ∈ inner items, isDivider c = false := by
  have space : isDivider ' ' = false := by decide
  have comma : isDivider ',' = false := by decide
  have item (item : ExportItem) : ∀ c ∈ item.render, isDivider c = false :=
    fun c member => isDivider_of_plain (item.mem_render c member)
  induction items with
  | nil => simp [inner, space]
  | cons first items ih =>
      cases items with
      | nil => simpa [inner, or_imp, forall_and, space] using item first
      | cons other items =>
          simp only [inner_cons, List.forall_mem_append, List.forall_mem_cons]
          exact ⟨⟨⟨space, List.forall_mem_nil _⟩, item first⟩, comma, ih⟩

end ExportStatement

end Unmarked

/-- Every match starts with the word `export` and takes the mark before any other. -/
structure Wants {α : Type} (p : Pattern α) (mark : Char) : Prop where
  divides : isDivider mark = true
  takes : ∀ before after, p.ways (.between before after) ≠ [] → ∃ plain rest, after = plain ++ mark :: rest ∧
    plain.head? = some 'e' ∧ ∀ c ∈ plain, isDivider c = false

namespace Wants

variable {α : Type} {p : Pattern α} {mark c : Char} {before stretch rest : Text}

theorem quiet (wants : Wants p mark) (unmarked : ∀ c ∈ stretch, isDivider c = false)
    (marked : isDivider c = true) (other : mark ≠ c) : p.Quiet before (stretch ++ [c]) rest := by
  refine Quiet.of_mark (fun before after matched => ?_) unmarked marked
  obtain ⟨plain, rest, split, -, free⟩ := wants.takes before after matched
  exact ⟨plain, mark, rest, split, free, wants.divides, other⟩

theorem heads (wants : Wants p mark) (before : Text) (c : Char) (after : Text)
    (matched : p.ways (.between before (c :: after)) ≠ []) : c = 'e' := by
  obtain ⟨plain, rest, split, head, -⟩ := wants.takes before _ matched
  obtain ⟨plain, rfl⟩ := List.head?_eq_some_iff.mp head
  exact (List.cons_eq_cons.mp split).1

theorem line_quiet (wants : Wants p mark) (other : mark ≠ ';')
    (unmarked : ∀ c ∈ stretch, isDivider c = false) : p.Quiet before (stretch ++ [';', '\n']) rest := by
  have lineEnd : p.Quiet (before ++ (stretch ++ [';'])) ['\n'] rest :=
    Quiet.of_heads wants.heads (List.forall_mem_singleton.mpr (by decide))
  have whole := (wants.quiet unmarked rfl other).append lineEnd
  rwa [List.append_assoc] at whole

theorem reads_mark {read : Text → α → List Text} (wants : Wants p mark)
    (unmarked : ∀ c ∈ stretch, isDivider c = false) (marked : isDivider c = true) (other : mark ≠ c) :
    Reads p read (stretch ++ [c]) [] :=
  .of_quiet fun _ _ => wants.quiet unmarked marked other

theorem reads_line {read : Text → α → List Text} (wants : Wants p mark) (other : mark ≠ ';')
    (unmarked : ∀ c ∈ stretch, isDivider c = false) : Reads p read (stretch ++ [';', '\n']) [] :=
  .of_quiet fun _ _ => wants.line_quiet other unmarked

end Wants

section Lists

theorem mem_ways_exportList {before after : Text} {found : Span × Cursor}
    (way : found ∈ exportList.ways (.between before after)) :
    ∃ plain inner rest, (∀ c ∈ plain, isDivider c = false) ∧ plain.head? = some 'e' ∧ '}' ∉ inner ∧
      after = plain ++ '{' :: (inner ++ '}' :: rest) ∧
      found = (⟨(before ++ plain ++ ['{']).length, (before ++ plain ++ ['{'] ++ inner).length⟩,
        .between (before ++ plain ++ ['{'] ++ inner ++ ['}']) rest) := by
  obtain ⟨⟨⟩, place, word, way⟩ := mem_ways_bind.mp way
  obtain ⟨-, rest, rfl, ⟨⟩⟩ := mem_ways_wordChars.mp word
  obtain ⟨⟨⟩, place, skipped, way⟩ := mem_ways_bind.mp way
  obtain ⟨blanks, rest, rfl, blank, ⟨⟩⟩ := mem_ways_run skipped
  obtain ⟨⟨⟩, place, optional, way⟩ := mem_ways_bind.mp way
  obtain ⟨typeOnly, modifier, rest, written, rfl, ⟨⟩⟩ := mem_ways_typeModifier.mp optional
  obtain ⟨⟨⟩, place, opened, way⟩ := mem_ways_bind.mp way
  obtain ⟨c, rest, rfl, brace, ⟨⟩⟩ := mem_ways_one.mp opened
  obtain rfl : c = '{' := by simpa using brace
  obtain ⟨span, place, spanned, way⟩ := mem_ways_bind.mp way
  rw [ways_spanOf] at spanned
  obtain ⟨⟨⟨⟩, place⟩, ran, ⟨⟩⟩ := List.mem_map.mp spanned
  obtain ⟨inner, rest, rfl, all, ⟨⟩⟩ := mem_ways_run ran
  obtain ⟨⟨⟩, place, closed, way⟩ := mem_ways_bind.mp way
  obtain ⟨c, rest, rfl, brace, ⟨⟩⟩ := mem_ways_one.mp closed
  obtain rfl : c = '}' := by simpa using brace
  have inside : '}' ∉ inner := fun member => by simpa using all '}' member
  have gap : ∀ c ∈ blanks, isDivider c = false := fun c member =>
    isDivider_of_plain (.inl (blank c member))
  have optional : ∀ c ∈ modifier, isDivider c = false := by
    cases written with
    | none => exact List.forall_mem_nil _
    | type separated =>
        exact List.forall_mem_append.mpr ⟨Identifier.typeWord.unmarked,
          fun c member => isDivider_of_plain (.inl (separated.2 c member))⟩
  refine ⟨Identifier.exportWord.text ++ (blanks ++ modifier), inner, rest, ?_, rfl, inside, ?_, ?_⟩
  · exact List.forall_mem_append.mpr ⟨Identifier.exportWord.unmarked,
      List.forall_mem_append.mpr ⟨gap, optional⟩⟩
  · rw [List.append_assoc, List.append_assoc]
    rfl
  · rw [ways_pure, List.mem_singleton] at way
    rw [way]
    simp only [List.append_assoc]
    rfl

theorem exportList_wants : Wants exportList '{' := by
  refine ⟨rfl, fun before after matched => ?_⟩
  obtain ⟨found, way⟩ := List.exists_mem_of_ne_nil _ matched
  obtain ⟨plain, inner, rest, free, head, -, split, -⟩ := mem_ways_exportList way
  exact ⟨plain, _, split, head, free⟩

/-- The names that are read from what stands between braces. -/
def readList (text : Text) (inner : Span) : List Text := listNames (text.slice inner)

/-- A match that ends in braces with nothing between them is one of an empty list. -/
theorem exportList_braces {stretch : Text} (unmarked : ∀ c ∈ stretch, isDivider c = false) :
    Reads exportList readList (stretch ++ ['{', '}']) [] := by
  intro before rest edge
  have contained : ∀ left right, stretch ++ ['{', '}'] = left ++ right → right ≠ [] →
      ∀ found ∈ exportList.ways (.between (before ++ left) (right ++ rest)),
        found.1.start = found.1.stop ∧ ∃ taken more, taken ≠ [] ∧ right = taken ++ more ∧
          found.2 = .between (before ++ left ++ taken) (more ++ rest) := by
    intro left right split nonempty found way
    obtain ⟨plain, inner, others, free, head, opened, same, rfl⟩ := mem_ways_exportList way
    rcases List.append_eq_append_iff.mp split with ⟨extra, rfl, braces⟩ | ⟨extra, rfl, rfl⟩
    · -- Within the braces the word cannot start.
      obtain ⟨c, right, rfl⟩ := List.exists_cons_of_ne_nil nonempty
      obtain ⟨plain, rfl⟩ := List.head?_eq_some_iff.mp head
      obtain rfl : c = 'e' := (List.cons_eq_cons.mp same).1
      have member : 'e' ∈ ['{', '}'] := by simp [braces]
      exact absurd member (by decide)
    · have inside : ∀ c ∈ extra, isDivider c = false := fun c member =>
        unmarked c (List.mem_append_right _ member)
      rw [List.append_assoc] at same
      obtain ⟨rfl, -, closed⟩ := Text.append_cons_inj same inside free rfl rfl
      obtain rfl : inner = [] := by
        cases inner with
        | nil => rfl
        | cons c inner =>
            obtain ⟨rfl, -⟩ := List.cons_eq_cons.mp closed
            exact absurd List.mem_cons_self opened
      obtain ⟨-, rfl⟩ := List.cons_eq_cons.mp closed
      exact ⟨by simp, extra ++ ['{', '}'], [], by simp, by simp, by simp⟩
  obtain ⟨inside, found, each⟩ := @allBetween_contained _ exportList before (stretch ++ ['{', '}']) rest
    (fun inner => inner.start = inner.stop) contained
  refine ⟨inside, found, List.flatMap_eq_nil_iff.mpr fun found member => ?_⟩
  have empty : (before ++ (stretch ++ ['{', '}'] ++ rest)).slice found.value = [] := by
    simp [slice, each found member]
  rw [readList, empty]
  decide

theorem exportWord_letters : ∀ c ∈ Identifier.exportWord.text, isWord c = true :=
  List.all_eq_true.mp (by decide)

theorem exportList_list (items : List ExportItem) {tail : Text}
    (unmarked : ∀ c ∈ tail, isDivider c = false) :
    Reads exportList readList
      (Identifier.exportWord.text ++ ([' ', '{'] ++ (ExportStatement.inner items ++ ['}'])) ++
        (tail ++ [';', '\n'])) (items.map fun item => item.exported.text) := by
  refine .of_found (by simp [Identifier.exportWord.nonempty]) (fun before rest edge => ?_) fun before rest =>
    exportList_wants.line_quiet (by decide) unmarked
  have closed : '}' ∉ ExportStatement.inner items := fun member =>
    absurd (ExportStatement.inner_unmarked items '}' member) (by decide)
  have solid : ∀ c, ('{' :: (ExportStatement.inner items ++ '}' :: (tail ++ [';', '\n'] ++ rest))).head? =
      some c → isBlank c = false := by
    simp only [List.head?_cons, Option.some.injEq, forall_eq']
    decide
  have unmodified : ¬ ∃ gap rest', IsGap gap ∧ '{' :: (ExportStatement.inner items ++ '}' ::
      (tail ++ [';', '\n'] ++ rest)) = Identifier.typeWord.text ++ (gap ++ rest') := by
    rintro ⟨gap, rest', -, same⟩
    exact absurd (List.cons_eq_cons.mp same).1 (by decide)
  have first : exportList.First _ _ _ :=
    (wordChars_first before Identifier.exportWord _ exportWord_letters edge).bind
      ((First.run _ isGap_space.2 solid).bind ((typeModifier_first _ .none solid unmodified).bind
        (braced_first _ _ closed)))
  have listed := slice_append (before ++ Identifier.exportWord.text ++ [' '] ++ [] ++ ['{'])
    (ExportStatement.inner items) ('}' :: (tail ++ [';', '\n'] ++ rest))
  simp only [List.append_assoc, List.cons_append, List.nil_append] at first listed ⊢
  exact ⟨_, first, (congrArg listNames listed).trans (listNames_inner items)⟩

/-- The names of the list that a statement is. -/
def ExportStatement.listed : ExportStatement → List Text
  | list items _ => items.map fun item => item.exported.text
  | _ => []

theorem exportList_reads (statement : ExportStatement) :
    Reads exportList readList statement.render statement.listed := by
  have wants {c : Char} {stretch : Text} (unmarked : ∀ c ∈ stretch, isDivider c = false)
      (marked : isDivider c = true) (other : '{' ≠ c) : Reads exportList readList (stretch ++ [c]) [] :=
    exportList_wants.reads_mark unmarked marked other
  have line {stretch : Text} (unmarked : ∀ c ∈ stretch, isDivider c = false) :
      Reads exportList readList (stretch ++ [';', '\n']) [] :=
    exportList_wants.reads_line (by decide) unmarked
  cases statement with
  | declaration declared =>
      obtain ⟨lead, plain, ends, shape, unmarked, closes, starts⟩ :=
        ExportStatement.declaration_shape declared
      have behind : Reads exportList readList (plain ++ (ends ++ [';', '\n'])) [] := by
        rcases closes with rfl | rfl
        · exact line unmarked
        · have braces : Reads exportList readList (plain ++ ['{'] ++ ['}']) [] := by
            simpa using exportList_braces unmarked
          simpa using braces.append_mark rfl (line (List.forall_mem_nil _))
      rw [shape]
      rcases starts with rfl | ⟨stretch, rfl, letters⟩
      · exact behind
      · exact (wants letters rfl (by decide)).append_mark rfl behind
  | list items source? =>
      have reads := exportList_list items (ExportStatement.source_unmarked source?)
      rw [ExportStatement.render_list]
      simp only [List.append_assoc] at reads
      exact reads
  | star name source =>
      have word : ∀ c ∈ " as ".toList, isDivider c = false := unmarked_of_all (by decide)
      have named := List.forall_mem_append.mpr ⟨word,
        List.forall_mem_append.mpr ⟨name.unmarked, source.unmarked⟩⟩
      have reads := (wants ExportStatement.start_unmarked rfl (by decide : '{' ≠ '*')).append_mark rfl
        (line named)
      rw [ExportStatement.render_star]
      simp only [List.append_assoc] at reads
      exact reads

end Lists

section Namespaces

theorem mem_ways_exportedNamespace {before after : Text} {found : Span × Cursor}
    (way : found ∈ exportedNamespace.ways (.between before after)) :
    ∃ gap rest, (∀ c ∈ gap, isBlank c = true) ∧
      after = Identifier.exportWord.text ++ gap ++ '*' :: rest := by
  obtain ⟨⟨⟩, place, word, way⟩ := mem_ways_bind.mp way
  obtain ⟨-, rest, rfl, ⟨⟩⟩ := mem_ways_wordChars.mp word
  obtain ⟨⟨⟩, place, skipped, way⟩ := mem_ways_bind.mp way
  obtain ⟨gap, rest, rfl, blank, ⟨⟩⟩ := mem_ways_run skipped
  obtain ⟨⟨⟩, place, started, -⟩ := mem_ways_bind.mp way
  obtain ⟨c, rest, rfl, star, ⟨⟩⟩ := mem_ways_one.mp started
  obtain rfl : c = '*' := by simpa using star
  exact ⟨gap, rest, blank, (List.append_assoc _ _ _).symm⟩

theorem exportedNamespace_wants : Wants exportedNamespace '*' := by
  refine ⟨rfl, fun before after matched => ?_⟩
  obtain ⟨found, way⟩ := List.exists_mem_of_ne_nil _ matched
  obtain ⟨gap, rest, blank, split⟩ := mem_ways_exportedNamespace way
  refine ⟨Identifier.exportWord.text ++ gap, rest, split, rfl, ?_⟩
  exact List.forall_mem_append.mpr ⟨Identifier.exportWord.unmarked,
    fun c member => isDivider_of_plain (.inl (blank c member))⟩

/-- A star right behind a word with another last letter is not the one that the word `export` needs. -/
theorem exportedNamespace_quiet {stretch before rest : Text} {c : Char}
    (unmarked : ∀ d ∈ stretch ++ [c], isDivider d = false) (solid : isBlank c = false) (other : c ≠ 't') :
    exportedNamespace.Quiet before (stretch ++ [c] ++ ['*']) rest := by
  refine Quiet.of_places fun left right split => ?_
  refine List.eq_nil_iff_forall_not_mem.mpr fun found way => ?_
  obtain ⟨gap, others, blank, same⟩ := mem_ways_exportedNamespace way
  have inside : ∀ d ∈ right, isDivider d = false := fun d member =>
    unmarked d (split ▸ List.mem_append_right left member)
  have outside : ∀ d ∈ Identifier.exportWord.text ++ gap, isDivider d = false :=
    List.forall_mem_append.mpr ⟨Identifier.exportWord.unmarked,
      fun d member => isDivider_of_plain (.inl (blank d member))⟩
  obtain ⟨rfl, -, -⟩ := Text.append_cons_inj same inside outside rfl rfl
  have last : (left ++ (Identifier.exportWord.text ++ gap)).getLast? = some c := by
    rw [← split, List.getLast?_concat]
  by_cases empty : gap = []
  · subst empty
    have letter : some 't' = some c := by
      rwa [List.append_nil, List.getLast?_append_of_ne_nil _ Identifier.exportWord.nonempty] at last
    exact other (Option.some.inj letter).symm
  · rw [← List.append_assoc, List.getLast?_append_of_ne_nil _ empty] at last
    rw [blank c (List.mem_of_getLast? last)] at solid
    cases solid

/-- The name that stands at a place. -/
def readName (text : Text) (span : Span) : List Text := [text.slice span]

theorem exportedNamespace_star (name : Identifier) (source : ExportSource) :
    Reads exportedNamespace readName
      (Identifier.exportWord.text ++ ([' ', '*'] ++ (" as ".toList ++ name.text)) ++
        (source.render ++ [';', '\n'])) [name.text] := by
  refine .of_found (by simp [Identifier.exportWord.nonempty]) (fun before rest edge => ?_) fun before rest =>
    exportedNamespace_wants.line_quiet (by decide) source.unmarked
  have stop : ∀ c, (source.render ++ [';', '\n'] ++ rest).head? = some c → isIdentifier c = false := by
    intro c next
    obtain rfl : ' ' = c := Option.some.inj next
    decide
  have solid : ∀ c, ('*' :: ([' '] ++ (Identifier.asWord.text ++ ([' '] ++ (name.text ++
      (source.render ++ [';', '\n'] ++ rest)))))).head? = some c → isBlank c = false := by
    simp only [List.head?_cons, Option.some.injEq, forall_eq']
    decide
  have first : exportedNamespace.First _ _ _ :=
    (wordChars_first before Identifier.exportWord _ exportWord_letters edge).bind
      ((First.run _ isGap_space.2 solid).bind (namespaceName_first _ isGap_space.2 isGap_space name stop))
  have named := slice_append
    (before ++ Identifier.exportWord.text ++ [' '] ++ ['*'] ++ [' '] ++ Identifier.asWord.text ++ [' '])
    name.text (source.render ++ [';', '\n'] ++ rest)
  have words : " as ".toList = [' '] ++ (Identifier.asWord.text ++ [' ']) := rfl
  simp only [words, List.append_assoc, List.cons_append, List.nil_append] at first named ⊢
  exact ⟨_, first, congrArg (fun text => [text]) named⟩

/-- The name of the whole module that a statement exports. -/
def ExportStatement.starred : ExportStatement → List Text
  | star name _ => [name.text]
  | _ => []

theorem exportedNamespace_reads (statement : ExportStatement) :
    Reads exportedNamespace readName statement.render statement.starred := by
  have wants {c : Char} {stretch : Text} (unmarked : ∀ c ∈ stretch, isDivider c = false)
      (marked : isDivider c = true) (other : '*' ≠ c) :
      Reads exportedNamespace readName (stretch ++ [c]) [] :=
    exportedNamespace_wants.reads_mark unmarked marked other
  have line {stretch : Text} (unmarked : ∀ c ∈ stretch, isDivider c = false) :
      Reads exportedNamespace readName (stretch ++ [';', '\n']) [] :=
    exportedNamespace_wants.reads_line (by decide) unmarked
  cases statement with
  | declaration declared =>
      obtain ⟨lead, plain, ends, shape, unmarked, closes, starts⟩ :=
        ExportStatement.declaration_shape declared
      have behind : Reads exportedNamespace readName (plain ++ (ends ++ [';', '\n'])) [] := by
        rcases closes with rfl | rfl
        · exact line unmarked
        · have braces := (wants unmarked rfl (by decide : '*' ≠ '{')).append_mark rfl
            ((wants (List.forall_mem_nil _) rfl (by decide : '*' ≠ '}')).append_mark rfl
              (line (List.forall_mem_nil _)))
          simpa using braces
      rw [shape]
      rcases starts with rfl | ⟨stretch, rfl, letters⟩
      · exact behind
      · have star : Reads exportedNamespace readName (stretch ++ ['n'] ++ ['*']) [] :=
          .of_quiet fun before rest => exportedNamespace_quiet letters (by decide) (by decide)
        exact star.append_mark rfl behind
  | list items source? =>
      have reads := (wants ExportStatement.start_unmarked rfl (by decide : '*' ≠ '{')).append_mark rfl
        ((wants (ExportStatement.inner_unmarked items) rfl (by decide : '*' ≠ '}')).append_mark rfl
          (line (ExportStatement.source_unmarked source?)))
      rw [ExportStatement.render_list]
      simp only [List.append_assoc] at reads
      exact reads
  | star name source =>
      have reads := exportedNamespace_star name source
      rw [ExportStatement.render_star]
      simp only [List.append_assoc] at reads
      exact reads

end Namespaces

end Script
end ImportAudit
