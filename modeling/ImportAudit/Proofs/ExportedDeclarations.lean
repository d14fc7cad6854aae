import ImportAudit.Proofs.ExportSearch
import Mathlib.Data.List.Infix

/-! The searches for exported declarations and for the default in export statements. Both need a gap and
one of a few words behind the word `export`. A name may end in that word, but what comes behind a name
never starts with one of these words, so in a statement both shapes match at its start only. -/
namespace ImportAudit.Script
open Pattern Text

def Identifier.enumWord : Identifier := ⟨"enum".toList, by decide, List.all_eq_true.mp (by decide)⟩

/-- The text starts with one of the words. -/
def HasHead (words : List Text) (text : Text) : Prop := ∃ word ∈ words, word <+: text

namespace HasHead

variable {words : List Text} {text : Text}

theorem not_head {word : Text} (starts : HasHead words text)
    (apart : ∀ other ∈ words, ¬ other <+: word ∧ ¬ word <+: other) : ¬ word <+: text := by
  intro started
  obtain ⟨other, listed, first⟩ := starts
  rcases List.prefix_or_prefix_of_prefix first started with shorter | longer
  · exact (apart other listed).1 shorter
  · exact (apart other listed).2 longer

theorem optionalWord (starts : HasHead words text) (there : Bool) (word : String) :
    HasHead (word.toList :: words) (optionalWord there word ++ text) := by
  cases there with
  | false =>
      obtain ⟨other, listed, first⟩ := starts
      exact ⟨other, List.mem_cons_of_mem _ listed, first⟩
  | true => exact ⟨word.toList, List.mem_cons_self, by simp [Script.optionalWord]⟩

theorem solid (starts : HasHead words text)
    (unbroken : ∀ word ∈ words, word.head?.any (fun c => !isBlank c) = true) :
    ∀ c, text.head? = some c → isBlank c = false := by
  obtain ⟨word, listed, rest, rfl⟩ := starts
  have head := unbroken word listed
  cases word with
  | nil => cases head
  | cons d word => simpa using head

end HasHead

def plainWords : List String := ["const", "let", "var", "class", "interface", "type", "enum"]

def kindWords : List Text := ("function" :: plainWords).map String.toList

/-- The words that come first in a declaration. -/
def declaringWords : List Text :=
  ["default", "declare", "abstract", "async"].map String.toList ++ kindWords

/-- A gap comes first, and one of the words of a declaration behind it. -/
def declares (text : Text) : Bool :=
  text.head?.any isBlank && declaringWords.any (·.isPrefixOf (text.dropWhile isBlank))

theorem declares_of_head {gap rest : Text} (separated : IsGap gap) (starts : HasHead declaringWords rest) :
    declares (gap ++ rest) = true := by
  obtain ⟨b, blanks, rfl⟩ := List.exists_cons_of_ne_nil separated.1
  have solid := starts.solid (List.all_eq_true.mp (by decide))
  obtain ⟨word, listed, first⟩ := starts
  unfold declares
  rw [dropWhile_blank_append separated.2 solid]
  refine Bool.and_eq_true_iff.mpr ⟨separated.2 b List.mem_cons_self, ?_⟩
  exact List.any_eq_true.mpr ⟨word, listed, List.isPrefixOf_iff_prefix.mpr first⟩

def isExportLetter (c : Char) : Bool := Identifier.exportWord.text.contains c

/-- The word does not stand in the text, and none of it comes last, so the word cannot start there. -/
def isSilent (text : Text) : Bool :=
  text.tails.all (!Identifier.exportWord.text.isPrefixOf ·) && !text.getLast?.any isExportLetter

/-- The word `export` and behind it a declaration. -/
def StartsDeclaration (text : Text) : Prop :=
  ∃ rest, text = Identifier.exportWord.text ++ rest ∧ declares rest = true

/-- However the pattern matches, one of the words of a declaration comes first. -/
def Declaring {α : Type} (p : Pattern α) : Prop :=
  ∀ before after found, found ∈ p.ways (.between before after) → HasHead declaringWords after

namespace Declaring

variable {α β : Type} {p q : Pattern α}

theorem literal {word : String} (listed : word.toList ∈ declaringWords) : Declaring (literal word) := by
  intro before after found way
  obtain ⟨rest, rfl, -⟩ := mem_ways_chars.mp way
  exact ⟨word.toList, listed, List.prefix_append _ _⟩

theorem bind {next : α → Pattern β} (starts : Declaring p) : Declaring (p >>= next) := by
  intro before after found way
  obtain ⟨a, place, started, -⟩ := mem_ways_bind.mp way
  exact starts before after _ started

theorem either (first : Declaring p) (second : Declaring q) : Declaring (either p q) := by
  intro before after found way
  rw [ways_either, List.mem_append] at way
  exact way.elim (first before after found) (second before after found)

theorem anyOf {patterns : List (Pattern α)} (each : ∀ p ∈ patterns, Declaring p) :
    Declaring (anyOf patterns) := by
  induction patterns with
  | nil =>
      intro before after found way
      cases way
  | cons p patterns ih =>
      exact (each p List.mem_cons_self).either (ih fun q member => each q (List.mem_cons_of_mem _ member))

theorem modifier {word : String} {next : Unit → Pattern α} (listed : word.toList ∈ declaringWords)
    (later : Declaring (next ())) : Declaring (modifier word >>= next) := by
  intro before after found way
  obtain ⟨⟨⟩, place, optional, way⟩ := mem_ways_bind.mp way
  rw [Script.modifier, maybe, ways_either, List.mem_append] at optional
  rcases optional with taken | skipped
  · exact (literal listed).bind before after _ taken
  · obtain ⟨-, rfl⟩ : () = () ∧ place = .between before after := by simpa using skipped
    exact later before after found way

theorem declarator : Declaring declarator := by
  have word {word : String} (listed : word.toList ∈ declaringWords) : Declaring (Pattern.literal word) :=
    literal listed
  refine either (literal (by decide)).bind (bind (anyOf ?_))
  simp only [List.forall_mem_cons, List.not_mem_nil, false_imp_iff, implies_true, and_true]
  exact ⟨(literal (by decide)).bind, word (by decide), word (by decide), word (by decide),
    word (by decide), word (by decide), word (by decide), word (by decide)⟩

theorem starts {after before : Text} {found : α × Cursor} (starts : Declaring p)
    (way : found ∈ (do keyword "export"; blankRun1; p).ways (.between before after)) :
    StartsDeclaration after := by
  obtain ⟨⟨⟩, place, word, way⟩ := mem_ways_bind.mp way
  obtain ⟨-, rest, rfl, ⟨⟩⟩ := mem_ways_wordChars.mp word
  obtain ⟨⟨⟩, place, spaced, way⟩ := mem_ways_bind.mp way
  obtain ⟨gap, rest, rfl, some, blank, ⟨⟩⟩ := mem_ways_run1 spaced
  exact ⟨_, rfl, declares_of_head ⟨some, blank⟩ (starts _ _ _ way)⟩

end Declaring

theorem starts_of_exportedDeclaration {before after : Text}
    (matched : exportedDeclaration.ways (.between before after) ≠ []) : StartsDeclaration after := by
  obtain ⟨found, way⟩ := List.exists_mem_of_ne_nil _ matched
  refine Declaring.starts ?_ way
  exact .modifier (by decide) (.modifier (by decide) (.modifier (by decide) (.modifier (by decide)
    (.bind .declarator))))

theorem starts_of_defaultExport {before after : Text}
    (matched : defaultExport.ways (.between before after) ≠ []) : StartsDeclaration after := by
  obtain ⟨found, way⟩ := List.exists_mem_of_ne_nil _ matched
  exact Declaring.starts (Declaring.literal (by decide)).bind way

/-- Nowhere in the stretch does the word `export` start a declaration. -/
def Undeclaring (stretch rest : Text) : Prop :=
  ∀ left c right, stretch = left ++ c :: right → ¬ StartsDeclaration (c :: right ++ rest)

namespace Undeclaring

variable {stretch second rest before : Text}

theorem quiet {α : Type} {p : Pattern α} (undeclaring : Undeclaring stretch rest)
    (needs : ∀ {before after : Text}, p.ways (.between before after) ≠ [] → StartsDeclaration after) :
    p.Quiet before stretch rest := by
  intro left c right split
  by_contra matched
  exact undeclaring left c right split (needs matched)

theorem append (first : Undeclaring stretch (second ++ rest)) (later : Undeclaring second rest) :
    Undeclaring (stretch ++ second) rest := by
  intro left c right split
  rcases List.append_eq_append_iff.mp split with ⟨extra, rfl, rfl⟩ | ⟨extra, rfl, tail⟩
  · exact later extra c right rfl
  · cases extra with
    | nil => exact later [] c right (by simpa using tail.symm)
    | cons d extra =>
        obtain ⟨rfl, rfl⟩ := List.cons_eq_cons.mp tail
        simpa using first left c extra rfl

theorem suffix (whole : Undeclaring (stretch ++ second) rest) : Undeclaring second rest := by
  rintro left c right rfl
  exact whole (stretch ++ left) c right (by simp)

theorem of_silent (silent : isSilent stretch = true) : Undeclaring stretch rest := by
  rintro left c right rfl ⟨rest', same, -⟩
  obtain ⟨free, ends⟩ := Bool.and_eq_true_iff.mp silent
  have nonempty : c :: right ≠ [] := List.cons_ne_nil c right
  rcases List.append_eq_append_iff.mp same with ⟨extra, word, -⟩ | ⟨extra, split, -⟩
  · have member : (c :: right).getLast nonempty ∈ Identifier.exportWord.text := by
      rw [word]
      exact List.mem_append_left _ (List.getLast_mem nonempty)
    rw [List.getLast?_append_of_ne_nil _ nonempty, List.getLast?_eq_some_getLast nonempty] at ends
    simp [isExportLetter, member] at ends
  · have part := List.all_eq_true.mp free (c :: right) ((List.mem_tails _ _).mpr (List.suffix_append left _))
    have started : Identifier.exportWord.text.isPrefixOf (c :: right) = true :=
      List.isPrefixOf_iff_prefix.mpr ⟨extra, split.symm⟩
    rw [started] at part
    cases part

/-- Where no blank stands in a stretch, the gap would come right behind it. -/
theorem of_solid (solid : ∀ c ∈ stretch, isBlank c = false)
    (stop : rest.head?.any isExportLetter = false)
    (other : declares rest = false) : Undeclaring stretch rest := by
  have ends : ∀ c, rest.head? = some c → c ∉ Identifier.exportWord.text := by
    intro c next
    simpa [next, isExportLetter] using stop
  rintro left c right rfl ⟨rest', same, declared⟩
  obtain ⟨body, split, rfl⟩ := Text.exists_of_append same ends
  cases body with
  | nil =>
      rw [List.nil_append, other] at declared
      cases declared
  | cons d body =>
      have blank : isBlank d = true := (Bool.and_eq_true_iff.mp declared).1
      rw [solid d (by simp [split])] at blank
      cases blank

end Undeclaring

theorem optionalWord_undeclaring (there : Bool) {word : String} {rest : Text}
    (silent : isSilent (word.toList ++ [' ']) = true) : Undeclaring (optionalWord there word) rest := by
  cases there with
  | false => exact fun left c right split => by simp [optionalWord] at split
  | true => exact .of_silent silent

namespace ExportItem

theorem undeclaring (item : ExportItem) {rest : Text}
    (stop : rest.head?.any isExportLetter = false)
    (other : declares rest = false) : Undeclaring item.render rest := by
  have head {rest : Text} (stop : rest.head?.any isExportLetter = false)
      (other : declares rest = false) : Undeclaring item.head rest :=
    .append (optionalWord_undeclaring _ rfl) (.of_solid item.name.unbroken stop other)
  unfold render
  split
  · exact head stop other
  · rename_i seen renamed
    refine .append (head rfl rfl) (.append ?_ (.of_solid seen.unbroken stop other))
    exact .of_silent rfl

end ExportItem

theorem ExportSource.undeclaring (source : ExportSource) (rest : Text) :
    Undeclaring source.render (';' :: rest) := by
  have inside : ∀ c ∈ source.text, isBlank c = false := by
    intro c member
    rcases source.proper c member with letter | rfl | rfl | rfl
    · exact isBlank_of_isIdentifier (Bool.or_eq_true_iff.mpr (.inl letter))
    all_goals decide
  have quote : isBlank source.quote.char = false := by cases source.quote <;> decide
  have solid : ∀ c ∈ source.quote.char :: (source.text ++ [source.quote.char]), isBlank c = false := by
    simpa [or_imp, forall_and, quote] using inside
  exact .append (.of_silent rfl) (.of_solid solid rfl rfl)

namespace ExportStatement

theorem inner_undeclaring (items : List ExportItem) (rest : Text) :
    Undeclaring (inner items) ('}' :: rest) := by
  induction items with
  | nil => exact .of_silent rfl
  | cons item items ih =>
      cases items with
      | nil =>
          have single : inner [item] = [' '] ++ (item.render ++ [' ']) := by simp [inner]
          rw [single]
          exact .append (.of_silent rfl)
            (.append (item.undeclaring rfl rfl) (.of_silent rfl))
      | cons other items =>
          have shape : inner (item :: other :: items) =
              [' '] ++ (item.render ++ ([','] ++ inner (other :: items))) := by simp [inner_cons]
          rw [shape]
          exact .append (.of_silent rfl)
            (.append (item.undeclaring rfl rfl) (.append (.of_silent rfl) ih))

theorem list_undeclaring (items : List ExportItem) (source? : Option ExportSource) (rest : Text) :
    Undeclaring (list items source?).render rest := by
  have source : Undeclaring ((source?.map ExportSource.render).getD []) (';' :: '\n' :: rest) := by
    cases source? with
    | none => exact fun left c right split => by simp at split
    | some source => exact source.undeclaring _
  rw [render_list]
  exact .append (.of_solid Identifier.exportWord.unbroken rfl rfl) (.append (.of_silent rfl)
    (.append (inner_undeclaring items _) (.append (.of_silent rfl)
      (.append source (.of_silent rfl)))))

theorem star_undeclaring (name : Identifier) (source : ExportSource) (rest : Text) :
    Undeclaring (star name source).render rest := by
  rw [render_star]
  exact .append (.of_solid Identifier.exportWord.unbroken rfl rfl) (.append (.of_silent rfl)
    (.append (.of_silent rfl) (.append (.of_solid name.unbroken rfl rfl)
      (.append (source.undeclaring _) (.of_silent rfl)))))

/-- Behind the word `export` nothing of a declaration starts another one. -/
theorem declaration_undeclaring (declared : Declaration) (rest : Text) :
    Undeclaring ([' '] ++ (declared.lead ++ (declared.name.text ++ (declared.kind.tail ++ [';', '\n']))))
      rest := by
  have lead {rest : Text} : Undeclaring declared.lead rest := by
    have modifiers {rest : Text} : Undeclaring declared.modifiers rest :=
      .append (optionalWord_undeclaring _ rfl)
        (.append (optionalWord_undeclaring _ rfl)
          (.append (optionalWord_undeclaring _ rfl)
            (optionalWord_undeclaring _ rfl)))
    refine .append modifiers (.of_silent ?_)
    cases declared.kind with
    | function generator => cases generator <;> rfl
    | typeAlias =>
        have silent : isSilent ("type".toList ++ [' ']) = true := rfl
        exact silent
    | _ => rfl
  have ends : (declared.kind.tail ++ ([';', '\n'] ++ rest)).head?.any isExportLetter = false ∧
      declares (declared.kind.tail ++ ([';', '\n'] ++ rest)) = false := by
    cases declared.kind <;> exact ⟨rfl, rfl⟩
  have tail : Undeclaring declared.kind.tail ([';', '\n'] ++ rest) := by
    cases declared.kind with
    | typeAlias target =>
        exact .append (.of_silent rfl) (.of_solid target.unbroken rfl rfl)
    | _ => exact .of_silent rfl
  refine .append (.of_silent rfl) (.append lead
    (.append (.of_solid declared.name.unbroken ?_ ?_) (.append tail (.of_silent rfl))))
  · rw [List.append_assoc]
    exact ends.1
  · rw [List.append_assoc]
    exact ends.2

end ExportStatement

theorem ways_of_not_head {α : Type} {word : String} {next : Unit → Pattern α} {before after : Text}
    (other : ¬ word.toList <+: after) : (literal word >>= next).ways (.between before after) = [] := by
  refine List.eq_nil_iff_forall_not_mem.mpr fun found way => ?_
  obtain ⟨⟨⟩, place, started, -⟩ := mem_ways_bind.mp way
  obtain ⟨rest, rfl, -⟩ := mem_ways_chars.mp started
  exact other (List.prefix_append _ _)

theorem ways_bind_of_fails {α β : Type} {p : Pattern α} {next : α → Pattern β} {cursor : Cursor}
    (fails : p.ways cursor = []) : (p >>= next).ways cursor = [] := by
  rw [ways_bind, fails, List.flatMap_nil]

theorem modifier_first {words : List Text} {word : String} {rest : Text} (before : Text) (there : Bool)
    (starts : HasHead words rest)
    (unbroken : ∀ other ∈ words, other.head?.any (fun c => !isBlank c) = true)
    (apart : ∀ other ∈ words, ¬ other <+: word.toList ∧ ¬ word.toList <+: other) :
    (modifier word).First (.between before (optionalWord there word ++ rest)) ()
      (.between (before ++ optionalWord there word) rest) := by
  cases there with
  | false =>
      have skipped : (modifier word).First (.between before rest) () (.between before rest) :=
        First.right (ways_of_not_head (starts.not_head apart)) (First.pure ())
      simpa [optionalWord] using skipped
  | true =>
      have taken : (modifier word).First (.between before (word.toList ++ ([' '] ++ rest))) ()
          (.between (before ++ word.toList ++ [' ']) rest) :=
        ((First.chars before _ _).bind
          (First.run1 _ isGap_space.1 isGap_space.2 (starts.solid unbroken))).left
      simpa only [optionalWord, if_true, List.append_assoc] using taken

/-- Where one of the words comes next and no other, it is the one that is taken. -/
theorem anyOf_literals_first {words : List String} {word : String} {rest : Text} (before : Text)
    (listed : word ∈ words)
    (single : ∀ other ∈ words, other.toList <+: word.toList ++ rest → other = word) :
    (anyOf (words.map literal)).First (.between before (word.toList ++ rest)) ()
      (.between (before ++ word.toList) rest) := by
  induction words with
  | nil => cases listed
  | cons other words ih =>
      by_cases here : other = word
      · subst here
        exact (First.chars before _ rest).left
      · have nothing : (literal other).ways (.between before (word.toList ++ rest)) = [] := by
          refine List.eq_nil_iff_forall_not_mem.mpr fun found way => here ?_
          obtain ⟨rest', same, -⟩ := mem_ways_chars.mp way
          exact single other List.mem_cons_self ⟨rest', same.symm⟩
        have later := ih (List.mem_of_ne_of_mem (Ne.symm here) listed)
          fun other member => single other (List.mem_cons_of_mem _ member)
        exact First.right nothing later

theorem plainWords_single {word : String} {rest : Text} (listed : word ∈ plainWords) :
    ∀ other ∈ plainWords, other.toList <+: word.toList ++ rest → other = word := by
  have apart : ∀ word ∈ plainWords, ∀ other ∈ plainWords,
      other.toList <+: word.toList ∨ word.toList <+: other.toList → other = word := by decide +kernel
  intro other member started
  exact apart word listed other member
    (List.prefix_or_prefix_of_prefix started (List.prefix_append _ _))

/-- Where the words, a space and the name come next, the name is the declared one. -/
def NamedBehind (words : Text) (name : Identifier) (rest : Text) : Prop :=
  ∀ before, (declarator >>= fun _ => identifier).First
    (.between before (words ++ ([' '] ++ (name.text ++ rest))))
    ⟨(before ++ words ++ [' ']).length, (before ++ words ++ [' '] ++ name.text).length⟩
    (.between (before ++ words ++ [' '] ++ name.text) rest)

namespace NamedBehind

variable {name : Identifier} {rest : Text}

theorem function (stop : rest.head?.any isIdentifier = false) :
    NamedBehind "function".toList name rest := by
  intro before
  have solid := name.solid_head rest
  have unstarred : (char '*').ways
      (.between (before ++ "function".toList ++ [' ']) (name.text ++ rest)) = [] := by
    refine List.eq_nil_iff_forall_not_mem.mpr fun found way => ?_
    obtain ⟨c, others, same, star, -⟩ := mem_ways_one.mp way
    obtain rfl : c = '*' := by simpa using star
    have proper := holds_head name.nonempty name.proper rest '*' (by rw [same]; rfl)
    exact absurd proper (by decide)
  have taken : declarator.First _ () _ :=
    ((First.chars before "function".toList ([' '] ++ (name.text ++ rest))).bind
      ((First.run _ isGap_space.2 solid).bind
        ((First.right unstarred (First.pure ())).bind (First.run_stop _ solid)))).left
  exact taken.bind (identifier_first _ name fun c next => by simpa [next] using stop)

theorem generator (stop : rest.head?.any isIdentifier = false) :
    NamedBehind ("function".toList ++ ['*']) name rest := by
  intro before
  have taken : declarator.First _ () _ :=
    ((First.chars before "function".toList ('*' :: ([' '] ++ (name.text ++ rest)))).bind
      ((First.run_stop _ (by simp; decide)).bind
        ((First.char _ '*' _).left.bind (First.run _ isGap_space.2 (name.solid_head rest))))).left
  have named : (declarator >>= fun _ => identifier).First _ _ _ :=
    taken.bind (identifier_first _ name fun c next => by simpa [next] using stop)
  simpa only [List.append_assoc, List.singleton_append] using named

/-- The words `const enum` are no alternative where nothing but the name comes behind `const`: if the name
is `enum`, no other name comes behind it. -/
theorem constEnum_fails (before : Text) (stop : rest.head?.any isIdentifier = false)
    (unnamed : (rest.dropWhile isBlank).head?.any isIdentifier = false) :
    ((do literal "const"; blankRun1; literal "enum") >>= fun _ => blankRun1 >>= fun _ => identifier).ways
      (.between before ("const".toList ++ ([' '] ++ (name.text ++ rest)))) = [] := by
  refine List.eq_nil_iff_forall_not_mem.mpr fun found way => ?_
  obtain ⟨⟨⟩, place, words, way⟩ := mem_ways_bind.mp way
  obtain ⟨⟨⟩, place, started, words⟩ := mem_ways_bind.mp words
  obtain ⟨after, same, ⟨⟩⟩ := mem_ways_chars.mp started
  obtain rfl := List.append_cancel_left same
  obtain ⟨⟨⟩, place, spaced, words⟩ := mem_ways_bind.mp words
  obtain ⟨gap, after, same, some, blank, ⟨⟩⟩ := mem_ways_run1 spaced
  obtain ⟨after, rfl, ⟨⟩⟩ := mem_ways_chars.mp words
  obtain ⟨⟨⟩, place, spaced, way⟩ := mem_ways_bind.mp way
  obtain ⟨gap', after, rfl, some', blank', ⟨⟩⟩ := mem_ways_run1 spaced
  rw [identifier, ways_spanOf] at way
  obtain ⟨found, way, -⟩ := List.mem_map.mp way
  obtain ⟨taken, after, rfl, nonempty, proper, -⟩ := mem_ways_many1.mp way
  have words := eq_of_blank_append same isGap_space.2 blank (name.solid_head rest)
    (Identifier.enumWord.solid_head _)
  have ends : (gap' ++ (taken ++ after)).head?.any isIdentifier = false := by
    obtain ⟨d, gap', rfl⟩ := List.exists_cons_of_ne_nil some'
    exact isIdentifier_of_isBlank (blank' d List.mem_cons_self)
  obtain ⟨-, rfl⟩ := word_append_inj words name.proper Identifier.enumWord.proper stop ends
  obtain ⟨c, taken, rfl⟩ := List.exists_cons_of_ne_nil nonempty
  have part := proper c List.mem_cons_self
  rw [dropWhile_blank_append blank' (by simp [isBlank_of_isIdentifier part])] at unnamed
  simp [part] at unnamed

theorem plainWord {word : String} (listed : word ∈ plainWords)
    (stop : rest.head?.any isIdentifier = false)
    (unnamed : (rest.dropWhile isBlank).head?.any isIdentifier = false) :
    NamedBehind word.toList name rest := by
  intro before
  have starts : HasHead (plainWords.map String.toList) (word.toList ++ ([' '] ++ (name.text ++ rest))) :=
    ⟨word.toList, List.mem_map_of_mem listed, List.prefix_append _ _⟩
  have function := starts.not_head (show ∀ other ∈ plainWords.map String.toList,
    ¬ other <+: "function".toList ∧ ¬ "function".toList <+: other by decide +kernel)
  have enumeration : ((do literal "const"; blankRun1; literal "enum") >>= fun _ => blankRun1 >>= fun _ =>
      identifier).ways (.between before (word.toList ++ ([' '] ++ (name.text ++ rest)))) = [] := by
    by_cases constant : word = "const"
    · subst constant
      exact constEnum_fails before stop unnamed
    · have other : ¬ "const".toList <+: word.toList ++ ([' '] ++ (name.text ++ rest)) := fun started =>
        constant (plainWords_single listed "const" (by decide) started).symm
      exact ways_bind_of_fails (ways_of_not_head other)
  refine First.bind_right (ways_bind_of_fails (ways_of_not_head function)) (First.bind_assoc ?_)
  refine First.bind_right enumeration ?_
  exact (anyOf_literals_first before listed (plainWords_single listed)).bind
    ((First.run1 _ isGap_space.1 isGap_space.2 (name.solid_head rest)).bind
      (identifier_first _ name fun c next => by simpa [next] using stop))

theorem constEnumeration (stop : rest.head?.any isIdentifier = false) :
    NamedBehind ("const".toList ++ ([' '] ++ "enum".toList)) name rest := by
  intro before
  have function : ¬ "function".toList <+:
      "const".toList ++ ([' '] ++ ("enum".toList ++ ([' '] ++ (name.text ++ rest)))) := by
    rw [← List.isPrefixOf_iff_prefix]
    exact Bool.false_ne_true
  have solid := Identifier.enumWord.solid_head ([' '] ++ (name.text ++ rest))
  have words : (do literal "const"; blankRun1; literal "enum" : Pattern Unit).First _ () _ :=
    (First.chars before "const".toList ([' '] ++ ("enum".toList ++ ([' '] ++ (name.text ++ rest))))).bind
      ((First.run1 _ isGap_space.1 isGap_space.2 solid).bind (First.chars _ _ _))
  have named : (declarator >>= fun _ => identifier).First _ _ _ :=
    First.bind_right (ways_bind_of_fails (ways_of_not_head function)) (First.bind_assoc (First.bind_left
      (words.bind ((First.run1 _ isGap_space.1 isGap_space.2 (name.solid_head rest)).bind
        (identifier_first _ name fun c next => by simpa [next] using stop)))))
  simpa only [List.append_assoc] using named

theorem of_kind (kind : DeclarationKind) (rest : Text) :
    NamedBehind kind.word.toList name (kind.tail ++ ([';', '\n'] ++ rest)) := by
  cases kind with
  | function isGenerator =>
      cases isGenerator with
      | false => exact .function rfl
      | true => exact .generator rfl
  | typeAlias target =>
      have listed : "type" ∈ plainWords := by decide
      exact .plainWord listed rfl rfl
  | constEnumeration => exact .constEnumeration rfl
  | _ => exact .plainWord (by decide) rfl rfl

end NamedBehind

namespace Declaration

variable (declared : Declaration)

theorem kind_head (kind : DeclarationKind) (rest : Text) : HasHead kindWords (kind.word.toList ++ rest) := by
  have starts {word : String} (whole : word.toList ∈ kindWords) (more : Text) :
      HasHead kindWords (word.toList ++ (more ++ rest)) := ⟨word.toList, whole, List.prefix_append _ _⟩
  cases kind with
  | function generator =>
      cases generator with
      | false => exact starts (by decide) []
      | true =>
          have function : "function".toList ∈ kindWords := by decide
          exact starts function ['*']
  | typeAlias target =>
      have type : "type".toList ∈ kindWords := by decide
      exact starts type []
  | constEnumeration =>
      have constant : "const".toList ∈ kindWords := by decide
      exact starts constant " enum".toList
  | _ => exact starts (by decide) []

theorem otherModifiers_head (rest : Text) :
    HasHead ("declare".toList :: "abstract".toList :: "async".toList :: kindWords)
      (declared.otherModifiers ++ (declared.kind.word.toList ++ rest)) := by
  have kind := kind_head declared.kind rest
  have whole := ((kind.optionalWord declared.isAsync "async").optionalWord declared.isAbstract
    "abstract").optionalWord declared.isDeclare "declare"
  simp only [otherModifiers, List.append_assoc]
  exact whole

theorem lead_head (rest : Text) : HasHead declaringWords (declared.lead ++ rest) := by
  have whole := (declared.otherModifiers_head ([' '] ++ rest)).optionalWord declared.isDefault "default"
  simp only [lead, modifiers, List.append_assoc]
  exact whole

theorem lead_of_default (given : declared.isDefault = true) : declared.lead =
    Identifier.defaultWord.text ++ ([' '] ++ (declared.otherModifiers ++
      (declared.kind.word.toList ++ [' ']))) := by
  simp only [lead, modifiers, optionalWord, given, if_true, List.append_assoc]
  rfl

theorem lead_of_not_default (absent : declared.isDefault = false) :
    declared.lead = declared.otherModifiers ++ (declared.kind.word.toList ++ [' ']) := by
  simp only [lead, modifiers, optionalWord, absent, Bool.false_eq_true, if_false, List.nil_append]

/-- The modifiers are taken that are there, and no other word is one of them. -/
theorem modifiers_first {α : Type} {p : Pattern α} {a : α} {final : Cursor} (before rest : Text)
    (first : p.First (.between (before ++ declared.modifiers) (declared.kind.word.toList ++ rest)) a
      final) :
    (do modifier "default"; modifier "declare"; modifier "abstract"; modifier "async"; p).First
      (.between before (declared.modifiers ++ (declared.kind.word.toList ++ rest))) a final := by
  have kind := kind_head declared.kind rest
  have async := kind.optionalWord declared.isAsync "async"
  have abstract := async.optionalWord declared.isAbstract "abstract"
  have declare := abstract.optionalWord declared.isDeclare "declare"
  have shape : before ++ declared.modifiers = before ++ optionalWord declared.isDefault "default" ++
      optionalWord declared.isDeclare "declare" ++ optionalWord declared.isAbstract "abstract" ++
      optionalWord declared.isAsync "async" := by
    simp only [modifiers, otherModifiers, List.append_assoc]
  rw [shape] at first
  simp only [modifiers, otherModifiers, List.append_assoc]
  exact (modifier_first before _ declare (List.all_eq_true.mp (by decide)) (by decide +kernel)).bind
    ((modifier_first _ _ abstract (List.all_eq_true.mp (by decide)) (by decide +kernel)).bind
      ((modifier_first _ _ async (List.all_eq_true.mp (by decide)) (by decide +kernel)).bind
        ((modifier_first _ _ kind (List.all_eq_true.mp (by decide)) (by decide +kernel)).bind first)))

end Declaration

theorem exportedDeclaration_first (declared : Declaration) (before rest : Text)
    (edge : before.getLast?.any isWord = false) :
    exportedDeclaration.First (.between before (Identifier.exportWord.text ++ ([' '] ++ (declared.lead ++
      (declared.name.text ++ (declared.kind.tail ++ ([';', '\n'] ++ rest)))))))
      ⟨(before ++ (Identifier.exportWord.text ++ ([' '] ++ declared.lead))).length,
        (before ++ (Identifier.exportWord.text ++ ([' '] ++ declared.lead)) ++ declared.name.text).length⟩
      (.between (before ++ (Identifier.exportWord.text ++ ([' '] ++ declared.lead)) ++ declared.name.text)
        (declared.kind.tail ++ ([';', '\n'] ++ rest))) := by
  have shape (after : Text) : declared.lead ++ after =
      declared.modifiers ++ (declared.kind.word.toList ++ ([' '] ++ after)) := by
    simp only [Declaration.lead, List.append_assoc]
  have solid := (declared.lead_head (declared.name.text ++ (declared.kind.tail ++
    ([';', '\n'] ++ rest)))).solid (List.all_eq_true.mp (by decide))
  have named := @NamedBehind.of_kind declared.name declared.kind rest
    (before ++ Identifier.exportWord.text ++ [' '] ++ declared.modifiers)
  rw [shape] at solid ⊢
  have first : exportedDeclaration.First _ _ _ :=
    (wordChars_first before Identifier.exportWord _ exportWord_letters edge).bind
      ((First.run1 _ isGap_space.1 isGap_space.2 solid).bind (declared.modifiers_first _ _ named))
  have lead := shape []
  simp only [List.append_nil] at lead
  simp only [lead, List.append_assoc] at first ⊢
  exact first

/-- The name that a statement declares. -/
def ExportStatement.declared : ExportStatement → List Text
  | declaration declared => [declared.name.text]
  | _ => []

theorem exportedDeclaration_reads (statement : ExportStatement) :
    Reads exportedDeclaration readName statement.render statement.declared := by
  cases statement with
  | declaration declared =>
      have reads : Reads exportedDeclaration readName
          (Identifier.exportWord.text ++ ([' '] ++ declared.lead) ++ declared.name.text ++
            (declared.kind.tail ++ [';', '\n'])) [declared.name.text] := by
        refine .of_found (by simp) (fun before rest edge => ?_) fun before rest => ?_
        · have first := exportedDeclaration_first declared before rest edge
          have named := slice_append (before ++ (Identifier.exportWord.text ++ ([' '] ++ declared.lead)))
            declared.name.text (declared.kind.tail ++ ([';', '\n'] ++ rest))
          simp only [List.append_assoc] at first named ⊢
          exact ⟨_, first, congrArg (fun text => [text]) named⟩
        · have whole := ExportStatement.declaration_undeclaring declared rest
          exact whole.suffix.suffix.suffix.quiet starts_of_exportedDeclaration
      simp only [List.append_assoc] at reads
      rw [ExportStatement.render_declaration]
      exact reads
  | list items source? =>
      exact .of_quiet fun before rest =>
        (ExportStatement.list_undeclaring items source? rest).quiet starts_of_exportedDeclaration
  | star name source =>
      exact .of_quiet fun before rest =>
        (ExportStatement.star_undeclaring name source rest).quiet starts_of_exportedDeclaration

/-- The name of the default, if a statement exports it. -/
def ExportStatement.defaults : ExportStatement → List Text
  | declaration declared => if declared.isDefault then [Identifier.defaultWord.text] else []
  | _ => []

def readDefault (_ : Text) (_ : Unit) : List Text := [Identifier.defaultWord.text]

theorem boundary_first {before after : Text} (edge : isBoundary before.getLast? after.head? = true) :
    boundary.First (.between before after) () (.between before after) :=
  First.of_ways (by simp [boundary, edge])

theorem defaultExport_declaration (declared : Declaration) (given : declared.isDefault = true) :
    Reads defaultExport readDefault
      (Identifier.exportWord.text ++ ([' '] ++ Identifier.defaultWord.text) ++ ([' '] ++
        (declared.otherModifiers ++ (declared.kind.word.toList ++ ([' '] ++ (declared.name.text ++
          (declared.kind.tail ++ [';', '\n'])))))))
      [Identifier.defaultWord.text] := by
  refine .of_found (by simp [Identifier.exportWord.nonempty]) (fun before rest edge => ?_) fun before rest => ?_
  · have ends (after : Text) : isBoundary
        (before ++ Identifier.exportWord.text ++ [' '] ++ Identifier.defaultWord.text).getLast?
        ([' '] ++ after).head? = true := by
      rw [List.getLast?_append_of_ne_nil _ Identifier.defaultWord.nonempty]
      rfl
    have first (after : Text) : defaultExport.First _ () _ :=
      (wordChars_first before Identifier.exportWord _ exportWord_letters edge).bind
        ((First.run1 _ isGap_space.1 isGap_space.2 (Identifier.defaultWord.solid_head _)).bind
          ((First.chars _ _ _).bind (boundary_first (ends after))))
    simp only [List.append_assoc] at first ⊢
    exact ⟨(), first _, rfl⟩
  · have whole := ExportStatement.declaration_undeclaring declared rest
    rw [declared.lead_of_default given] at whole
    simp only [List.append_assoc] at whole
    exact whole.suffix.suffix.quiet starts_of_defaultExport

theorem defaultExport_quiet (declared : Declaration) (absent : declared.isDefault = false)
    (before rest : Text) : defaultExport.Quiet before (ExportStatement.declaration declared).render rest := by
  have later : Undeclaring ("xport ".toList ++ (declared.lead ++ (declared.name.text ++
      (declared.kind.tail ++ [';', '\n'])))) rest :=
    .append (.of_silent rfl) (ExportStatement.declaration_undeclaring declared rest).suffix
  have start : defaultExport.ways (.between before (Identifier.exportWord.text ++ ([' '] ++ (declared.lead ++
      (declared.name.text ++ (declared.kind.tail ++ [';', '\n'])))) ++ rest)) = [] := by
    refine List.eq_nil_iff_forall_not_mem.mpr fun found way => ?_
    obtain ⟨⟨⟩, place, word, way⟩ := mem_ways_bind.mp way
    obtain ⟨-, after, same, ⟨⟩⟩ := mem_ways_wordChars.mp word
    obtain ⟨⟨⟩, place, spaced, way⟩ := mem_ways_bind.mp way
    obtain ⟨gap, after, rfl, some, blank, ⟨⟩⟩ := mem_ways_run1 spaced
    obtain ⟨⟨⟩, place, word, -⟩ := mem_ways_bind.mp way
    obtain ⟨after, rfl, -⟩ := mem_ways_chars.mp word
    simp only [List.append_assoc] at same
    have words := eq_of_blank_append (List.append_cancel_left same) isGap_space.2 blank
      ((declared.lead_head _).solid (List.all_eq_true.mp (by decide))) (Identifier.defaultWord.solid_head _)
    rw [declared.lead_of_not_default absent] at words
    simp only [List.append_assoc] at words
    have started : Identifier.defaultWord.text <+: _ := ⟨after, words.symm⟩
    exact (declared.otherModifiers_head _).not_head (by decide +kernel) started
  rw [ExportStatement.render_declaration]
  exact Quiet.cons start (later.quiet starts_of_defaultExport)

theorem defaultExport_reads (statement : ExportStatement) :
    Reads defaultExport readDefault statement.render statement.defaults := by
  cases statement with
  | declaration declared =>
      cases given : declared.isDefault with
      | false =>
          have none : (ExportStatement.declaration declared).defaults = [] := by
            simp [ExportStatement.defaults, given]
          rw [none]
          exact .of_quiet (defaultExport_quiet declared given)
      | true =>
          have reads := defaultExport_declaration declared given
          have single : (ExportStatement.declaration declared).defaults = [Identifier.defaultWord.text] := by
            simp only [ExportStatement.defaults, given, if_true]
          simp only [List.append_assoc] at reads
          rw [single, ExportStatement.render_declaration, declared.lead_of_default given]
          simp only [List.append_assoc]
          exact reads
  | list items source? =>
      exact .of_quiet fun before rest =>
        (ExportStatement.list_undeclaring items source? rest).quiet starts_of_defaultExport
  | star name source =>
      exact .of_quiet fun before rest =>
        (ExportStatement.star_undeclaring name source rest).quiet starts_of_defaultExport

end ImportAudit.Script
