import ImportAudit.Script.Export
import ImportAudit.Proofs.ImportStatement
import ImportAudit.Proofs.Lexing

/-! Export statements, given by their parts and written out: declarations with any modifiers before
them, lists of names, and whole modules under a name. The names of a list are read off item by item,
and each item has the name that its parts say. -/
namespace ImportAudit.Script
open Pattern Text

/-- A word and a space, if it is there. -/
def optionalWord (there : Bool) (word : String) : Text :=
  if there then word.toList ++ [' '] else []

/-- `name` or `name as alias`, where `type` may come first if the name is not `as`. -/
structure ExportItem where
  typeOnly : Bool
  name : Identifier
  alias? : Option Identifier
  plain : typeOnly = true → name.text ≠ Identifier.asWord.text

/-- What a name is declared as, and for a type, what it stands for. -/
inductive DeclarationKind
  | constant
  | letVariable
  | varVariable
  | function (generator : Bool)
  | objectClass
  | interface
  | typeAlias (target : Identifier)
  | enumeration
  | constEnumeration

/-- A declared name with the modifiers before its declaration. -/
structure Declaration where
  isDefault : Bool
  isDeclare : Bool
  isAbstract : Bool
  isAsync : Bool
  kind : DeclarationKind
  name : Identifier

/-- The module that an export statement takes its names from. -/
structure ExportSource where
  quote : Quote
  text : Text
  proper : ∀ c ∈ text, isWord c = true ∨ c = '.' ∨ c = '/' ∨ c = '-'

inductive ExportStatement
  | declaration (declaration : Declaration)
  | list (items : List ExportItem) (source? : Option ExportSource)
  | star (name : Identifier) (source : ExportSource)

namespace ExportItem

variable (item : ExportItem)

/-- The name that other modules see. -/
def exported : Identifier := item.alias?.getD item.name

/-- The item up to its alias. -/
def head : Text := optionalWord item.typeOnly "type" ++ item.name.text

def render : Text :=
  match item.alias? with
  | none => item.head
  | some other => item.head ++ (" as ".toList ++ other.text)

end ExportItem

namespace DeclarationKind

/-- The words right before the name. -/
def word : DeclarationKind → String
  | constant => "const"
  | letVariable => "let"
  | varVariable => "var"
  | function false => "function"
  | function true => "function*"
  | objectClass => "class"
  | interface => "interface"
  | typeAlias _ => "type"
  | enumeration => "enum"
  | constEnumeration => "const enum"

/-- What comes behind the name. -/
def tail : DeclarationKind → Text
  | constant | letVariable | varVariable => " = 1".toList
  | function _ => "() {}".toList
  | objectClass | interface | enumeration | constEnumeration => " {}".toList
  | typeAlias target => " = ".toList ++ target.text

end DeclarationKind

namespace Declaration

variable (declaration : Declaration)

/-- The modifiers behind `default`. -/
def otherModifiers : Text :=
  optionalWord declaration.isDeclare "declare" ++ (optionalWord declaration.isAbstract "abstract" ++
    optionalWord declaration.isAsync "async")

def modifiers : Text := optionalWord declaration.isDefault "default" ++ declaration.otherModifiers

/-- What comes between the word `export` and the name. -/
def lead : Text := declaration.modifiers ++ (declaration.kind.word.toList ++ [' '])

end Declaration

def ExportSource.render (source : ExportSource) : Text :=
  " from ".toList ++ source.quote.char :: (source.text ++ [source.quote.char])

namespace ExportStatement

/-- What stands between the braces of a list. -/
def inner (items : List ExportItem) : Text :=
  ' ' :: (", ".toList.intercalate (items.map ExportItem.render) ++ [' '])

/-- What comes between the word `export` and the line end. -/
def body : ExportStatement → Text
  | declaration declared => ' ' :: (declared.lead ++ (declared.name.text ++ declared.kind.tail))
  | list items source? => ' ' :: '{' :: (inner items ++ '}' :: (source?.map ExportSource.render).getD [])
  | star name source => ' ' :: '*' :: (" as ".toList ++ (name.text ++ source.render))

def render (statement : ExportStatement) : Text :=
  Identifier.exportWord.text ++ (statement.body ++ [';', '\n'])

/-- The names that the statement exports. -/
def names : ExportStatement → List Text
  | declaration declared =>
      declared.name.text :: if declared.isDefault then [Identifier.defaultWord.text] else []
  | list items _ => items.map fun item => item.exported.text
  | star name _ => [name.text]

end ExportStatement

theorem strip_append {lead core trail : Text} (leadBlank : ∀ c ∈ lead, isBlank c = true)
    (trailBlank : ∀ c ∈ trail, isBlank c = true)
    (head : ∀ c, core.head? = some c → isBlank c = false)
    (last : ∀ c, core.getLast? = some c → isBlank c = false) :
    strip (lead ++ (core ++ trail)) = core := by
  have trailing : ∀ c ∈ trail.reverse, isBlank c = true := by simpa using trailBlank
  unfold strip
  by_cases empty : core = []
  · have blank : ∀ c ∈ lead ++ ([] ++ trail), isBlank c = true :=
      List.forall_mem_append.mpr ⟨leadBlank, trailBlank⟩
    rw [empty, List.dropWhile_eq_nil_iff.mpr blank]
    rfl
  · have first : ∀ c, (core ++ trail).head? = some c → isBlank c = false := by
      rwa [List.head?_append_of_ne_nil _ empty]
    rw [dropWhile_blank_append leadBlank first, List.reverse_append, dropWhile_blank_append trailing,
      List.reverse_reverse]
    rwa [List.head?_reverse]

theorem Identifier.strip_text (name : Identifier) : strip name.text = name.text := by
  have solid : ∀ c ∈ name.text, isBlank c = false := name.unbroken
  have kept := @strip_append [] name.text [] (by simp) (by simp)
    (fun c first => solid c (List.mem_of_head? first))
    (fun c last => solid c (List.mem_of_getLast? last))
  simpa using kept

theorem mem_ways_asWord {before after : Text} {found : Unit × Cursor}
    (way : found ∈ Script.asWord.ways (.between before after)) :
    ∃ gap gap' rest, IsGap gap ∧ IsGap gap' ∧
      after = gap ++ (Identifier.asWord.text ++ (gap' ++ rest)) := by
  obtain ⟨⟨⟩, place, spaced, way⟩ := mem_ways_bind.mp way
  obtain ⟨gap, rest, rfl, some, blank, ⟨⟩⟩ := mem_ways_run1 spaced
  obtain ⟨⟨⟩, place, word, way⟩ := mem_ways_bind.mp way
  obtain ⟨rest, rfl, ⟨⟩⟩ := mem_ways_chars.mp word
  obtain ⟨gap', rest, rfl, some', blank', -⟩ := mem_ways_run1 way
  exact ⟨gap, gap', rest, ⟨some, blank⟩, ⟨some', blank'⟩, rfl⟩

theorem asWord_heads (before : Text) (c : Char) (after : Text)
    (matched : Script.asWord.ways (.between before (c :: after)) ≠ []) : isBlank c = true := by
  obtain ⟨way, member⟩ := List.exists_mem_of_ne_nil _ matched
  obtain ⟨gap, gap', rest, separated, -, same⟩ := mem_ways_asWord member
  obtain ⟨b, gap, rfl⟩ := List.exists_cons_of_ne_nil separated.1
  obtain ⟨rfl, -⟩ := List.cons_eq_cons.mp same
  exact separated.2 c List.mem_cons_self

theorem Identifier.asWord_quiet (name : Identifier) (before rest : Text) :
    Script.asWord.Quiet before name.text rest :=
  Quiet.of_heads asWord_heads fun c member => by simp [name.unbroken c member]

theorem asWord_first (before : Text) (name : Identifier) :
    Script.asWord.First (.between before (" as ".toList ++ name.text)) ()
      (.between (before ++ " as ".toList) name.text) := by
  have solid : ∀ c, name.text.head? = some c → isBlank c = false := by
    simpa using name.solid_head []
  have shape : before ++ " as ".toList = before ++ [' '] ++ Identifier.asWord.text ++ [' '] := by
    simp [Identifier.asWord]
  rw [shape]
  exact (First.run1 before isGap_space.1 isGap_space.2 (Identifier.asWord.solid_head _)).bind
    ((First.chars _ _ _).bind (First.run1 _ isGap_space.1 isGap_space.2 solid))

theorem mem_optionalWord {there : Bool} {word : String} {c : Char}
    (proper : ∀ c ∈ word.toList, isIdentifier c = true) (member : c ∈ optionalWord there word) :
    isBlank c = true ∨ isIdentifier c = true := by
  unfold optionalWord at member
  split at member
  · rcases List.mem_append.mp member with inside | space
    · exact .inr (proper c inside)
    · rw [List.mem_singleton.mp space]
      exact .inl (by decide)
  · cases member

namespace ExportItem

variable (item : ExportItem)

theorem mem_head : ∀ c ∈ item.head, isBlank c = true ∨ isIdentifier c = true := by
  intro c member
  rcases List.mem_append.mp member with modifier | inside
  · exact mem_optionalWord Identifier.typeWord.proper modifier
  · exact .inr (item.name.proper c inside)

theorem mem_render : ∀ c ∈ item.render, isBlank c = true ∨ isIdentifier c = true := by
  intro c member
  unfold render at member
  split at member
  · exact item.mem_head c member
  · rename_i other renamed
    rcases List.mem_append.mp member with inside | inside
    · exact item.mem_head c inside
    · rcases List.mem_append.mp inside with fixed | inside
      · have words : (" as ".toList.all fun c => isBlank c || isIdentifier c) = true := by decide
        exact Bool.or_eq_true_iff.mp (List.all_eq_true.mp words c fixed)
      · exact .inr (other.proper c inside)

/-- An item starts and ends with a name or a word. -/
theorem solid_ends : (∀ c, item.render.head? = some c → isBlank c = false) ∧
    ∀ c, item.render.getLast? = some c → isBlank c = false := by
  have first (rest : Text) : ∀ c, (item.head ++ rest).head? = some c → isBlank c = false := by
    unfold head optionalWord
    split
    · simp only [List.append_assoc]
      exact Identifier.typeWord.solid_head _
    · exact item.name.solid_head rest
  have last (before : Text) (name : Identifier) :
      ∀ c, (before ++ name.text).getLast? = some c → isBlank c = false := by
    rw [List.getLast?_append_of_ne_nil _ name.nonempty]
    exact fun c last => name.unbroken c (List.mem_of_getLast? last)
  unfold render
  split
  · exact ⟨by simpa using first [], last _ item.name⟩
  · rename_i other renamed
    exact ⟨first _, by simpa using last (item.head ++ " as ".toList) other⟩

/-- Up to its alias an item does not hold the word `as` between blanks. -/
theorem head_quiet {rest : Text} (ends : rest.head?.any isIdentifier = false) :
    Script.asWord.Quiet [] item.head rest := by
  unfold head optionalWord
  split
  · rename_i modified
    have space : Script.asWord.Quiet Identifier.typeWord.text [' '] (item.name.text ++ rest) := by
      refine Quiet.cons ?_ (by intro left c right split; simp at split)
      rw [List.nil_append]
      by_contra matched
      obtain ⟨way, member⟩ := List.exists_mem_of_ne_nil _ matched
      obtain ⟨gap, gap', rest', separated, separated', same⟩ := mem_ways_asWord member
      -- The name starts right behind the space, so it is the word `as`.
      have words := @eq_of_blank_append [' '] gap _ _ same isGap_space.2 separated.2
        (item.name.solid_head rest) (Identifier.asWord.solid_head _)
      have stops : (gap' ++ rest').head?.any isIdentifier = false := by
        obtain ⟨d, gap', rfl⟩ := List.exists_cons_of_ne_nil separated'.1
        exact isIdentifier_of_isBlank (separated'.2 d List.mem_cons_self)
      have named := word_append_inj words item.name.proper Identifier.asWord.proper ends stops
      exact item.plain modified named.1
    refine Quiet.append ?_ (item.name.asWord_quiet _ rest)
    exact (Identifier.typeWord.asWord_quiet [] _).append space
  · exact item.name.asWord_quiet [] rest

/-- The name that is read from an item with blanks around it is the exported one. -/
theorem itemName_render {lead trail : Text} (leadBlank : ∀ c ∈ lead, isBlank c = true)
    (trailBlank : ∀ c ∈ trail, isBlank c = true) :
    itemName (lead ++ (item.render ++ trail)) = item.exported.text := by
  have untyped (name : Identifier) : "type ".toList.isPrefixOf name.text = false := by
    refine Bool.eq_false_iff.mpr fun typed => ?_
    have space : ' ' ∈ name.text := (List.isPrefixOf_iff_prefix.mp typed).subset (by decide)
    exact name.not_mem (by decide) space
  unfold itemName
  rw [strip_append leadBlank trailBlank item.solid_ends.1 item.solid_ends.2]
  cases renamed : item.alias? with
  | none =>
      have whole : item.render = item.head := by simp [render, renamed]
      have named : item.exported = item.name := by simp [exported, renamed]
      have kept : strip item.head = item.head := by
        have ends := whole ▸ item.solid_ends
        simpa using @strip_append [] item.head [] (by simp) (by simp) ends.1 ends.2
      have none : Script.asWord.all item.head = [] := allBetween_eq_nil (item.head_quiet rfl)
      simp only [whole, none, List.getLast?_nil, kept, named]
      unfold head optionalWord
      cases item.typeOnly with
      | false =>
          change (if "type ".toList.isPrefixOf item.name.text = true then _ else item.name.text) = _
          rw [untyped]
          rfl
      | true => exact item.name.strip_text
  | some other =>
      have whole : item.render = item.head ++ (" as ".toList ++ other.text) := by
        simp [render, renamed]
      have named : item.exported = other := by simp [exported, renamed]
      have quiet : Script.asWord.Quiet [] item.head (" as ".toList ++ other.text) :=
        item.head_quiet rfl
      have found : Script.asWord.all (item.head ++ (" as ".toList ++ other.text)) =
          [⟨⟨item.head.length, (item.head ++ " as ".toList).length⟩, ()⟩] := by
        have last := allBetween_eq_nil (other.asWord_quiet (item.head ++ " as ".toList) [])
        rw [all_eq_allBetween, allBetween_pass quiet, List.nil_append,
          allBetween_found (by decide) (asWord_first item.head other), last]
      have behind : (item.head ++ (" as ".toList ++ other.text)).drop
          (item.head ++ " as ".toList).length = other.text := by
        rw [← List.append_assoc, List.drop_left]
      simp only [whole, found, List.getLast?_singleton, behind, other.strip_text, untyped, named]
      rfl

end ExportItem

namespace ExportStatement

theorem render_declaration (declared : Declaration) : (declaration declared).render =
    Identifier.exportWord.text ++ ([' '] ++ (declared.lead ++ (declared.name.text ++
      (declared.kind.tail ++ [';', '\n'])))) := by
  change Identifier.exportWord.text ++
    ' ' :: (declared.lead ++ (declared.name.text ++ declared.kind.tail) ++ _) = _
  rw [List.append_assoc, List.append_assoc]
  rfl

theorem render_list (items : List ExportItem) (source? : Option ExportSource) :
    (list items source?).render = Identifier.exportWord.text ++ ([' ', '{'] ++ (inner items ++
      (['}'] ++ ((source?.map ExportSource.render).getD [] ++ [';', '\n'])))) := by
  change Identifier.exportWord.text ++ ' ' :: '{' ::
    (inner items ++ '}' :: (source?.map ExportSource.render).getD [] ++ _) = _
  rw [List.append_assoc]
  rfl

theorem render_star (name : Identifier) (source : ExportSource) : (star name source).render =
    Identifier.exportWord.text ++ ([' ', '*'] ++ (" as ".toList ++ (name.text ++
      (source.render ++ [';', '\n'])))) := by
  change Identifier.exportWord.text ++ ' ' :: '*' :: (" as ".toList ++ (name.text ++ source.render) ++ _) = _
  rw [List.append_assoc, List.append_assoc]
  rfl

end ExportStatement

theorem ExportStatement.inner_cons (item other : ExportItem) (items : List ExportItem) :
    inner (item :: other :: items) = [' '] ++ item.render ++ ',' :: inner (other :: items) := by
  simp [inner, List.intercalate]

/-- The names that are read from a list are those of its items. -/
theorem listNames_inner (items : List ExportItem) :
    listNames (ExportStatement.inner items) = items.map fun item => item.exported.text := by
  have space : ∀ c ∈ [' '], isBlank c = true := isGap_space.2
  have whole (item : ExportItem) : ',' ∉ item.render := fun member =>
    absurd (item.mem_render ',' member) (by decide)
  have kept (item : ExportItem) :
      [item.exported.text].filter (!·.isEmpty) = [item.exported.text] := by
    simpa using item.exported.nonempty
  unfold listNames
  induction items with
  | nil => decide
  | cons item items ih =>
      cases items with
      | nil =>
          have single : ExportStatement.inner [item] = [' '] ++ (item.render ++ [' ']) := by
            simp [ExportStatement.inner]
          rw [single, split_of_not_mem (by simpa using whole item), List.map_singleton,
            item.itemName_render space space, kept]
          rfl
      | cons other items =>
          have named : itemName ([' '] ++ item.render) = item.exported.text := by
            simpa using item.itemName_render space (List.forall_mem_nil _)
          rw [ExportStatement.inner_cons, split_append_separator,
            split_of_not_mem (by simpa using whole item), List.map_append, List.filter_append, ih,
            List.map_singleton, named, kept]
          rfl

end ImportAudit.Script
