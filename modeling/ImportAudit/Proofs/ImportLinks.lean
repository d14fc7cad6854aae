import ImportAudit.Proofs.OtherForms
import Mathlib.Data.List.Forall2

/-! Reading back import statements: the links of a text that consists of rendered import statements are
those of the statements whose specifiers stand for files within the root, one for each of them, in the
order of the text. -/
namespace ImportAudit
open Pattern

/-- The target, the specifier and the bound names of a link. -/
abbrev LinkSummary := Path × String × List (Script.BindingKind × String × String)

def Link.summary (link : Link) : LinkSummary :=
  (link.target, link.specifier, link.bindings.map Script.Binding.names)

namespace Script

/-- What a statement links to; nothing if its specifier stands for no file within the root. -/
def ImportStatement.link? (disk : Disk) (root : Path) (extensions : List String) (importer : Path)
    (statement : ImportStatement) : Option LinkSummary :=
  let specifier := String.ofList statement.specifier.text
  ((Resolution.resolve? disk extensions importer specifier).filter (·.isWithin root)).map
    fun target => (target, specifier, statement.clause.names)

/-- The text of a statement with one blank in each gap. -/
def ImportStatement.render (statement : ImportStatement) : Text :=
  [' '].intercalate statement.tokens ++ [';', '\n']

theorem ImportStatement.renders_render (statement : ImportStatement) :
    statement.Renders statement.render :=
  ⟨_, Text.Spaced.joined (by simp [tokens]), rfl⟩

/-- A match that holds the parts of a statement. -/
structure ReadsAs (text : Text) (statement : ImportStatement) (found : Match ClauseImport) : Prop where
  specifier : wordAt text found.value.specifier = .ofList statement.specifier.text
  bindings : ∀ line, (clauseBindings line (text.slice found.value.clause)).map Binding.names =
    statement.clause.names

theorem Layout.core_ne_nil {statement : ImportStatement} (layout : Layout statement) :
    layout.core ≠ [] := by
  simp [core, opening, Identifier.importWord.nonempty]

theorem Layout.readsAs {statement : ImportStatement} (layout : Layout statement) (before rest : Text)
    (span : Span) :
    ReadsAs (before ++ (layout.core ++ rest)) statement ⟨span, layout.found before⟩ := by
  have body := Text.slice_append (before ++ layout.opening) layout.body
    (layout.closing ++ (statement.target ++ rest))
  have named := Text.slice_append (before ++ layout.opening ++ layout.body ++ layout.closing ++
    [statement.quote.char]) statement.specifier.text (statement.quote.char :: rest)
  have clauseText : before ++ layout.opening ++ layout.body ++
      (layout.closing ++ (statement.target ++ rest)) = before ++ (layout.core ++ rest) := by
    simp [core]
  have specifierText : before ++ layout.opening ++ layout.body ++ layout.closing ++
      [statement.quote.char] ++ statement.specifier.text ++ statement.quote.char :: rest =
      before ++ (layout.core ++ rest) := by
    simp [core, ImportStatement.target]
  rw [clauseText] at body
  rw [specifierText] at named
  refine ⟨congrArg String.ofList named, fun line => ?_⟩
  exact (congrArg (fun clause => (clauseBindings line clause).map Binding.names) body).trans
    (clauseBindings_names line layout.body_spaced)

variable {statements : List ImportStatement} {texts : List Text}

theorem clauseImports_readAs (rendered : List.Forall₂ ImportStatement.Renders statements texts)
    (before : Text) (edge : before.getLast?.any Text.isWord = false) :
    List.Forall₂ (ReadsAs (before ++ texts.flatten)) statements
      (clauseImport.allBetween before texts.flatten) := by
  induction rendered generalizing before with
  | nil => simp
  | @cons statement text statements texts first _ ih =>
      obtain ⟨layout, rfl⟩ := first.layout
      have quiet : clauseImport.Quiet (before ++ layout.core) [';', '\n'] texts.flatten :=
        lineEnd_quiet Identifier.importWord.nonempty Identifier.importWord.proper
      have later := ih (before ++ (layout.core ++ [';', '\n'])) (by simp; decide)
      have searched : clauseImport.allBetween before ((layout.core ++ [';', '\n']) ++ texts.flatten) =
          ⟨⟨before.length, (before ++ layout.core).length⟩, layout.found before⟩ ::
            clauseImport.allBetween (before ++ (layout.core ++ [';', '\n'])) texts.flatten := by
        rw [List.append_assoc, allBetween_found layout.core_ne_nil (layout.clauseImport_first before _ edge),
          allBetween_pass quiet, List.append_assoc]
      rw [List.flatten_cons, searched]
      refine .cons ?_ ?_
      · simpa using layout.readsAs before ([';', '\n'] ++ texts.flatten) _
      · simpa using later

/-- A form that occurs in no statement occurs in no text made of them. -/
theorem all_eq_nil_of_quiet {α : Type} {p : Pattern α}
    (rendered : List.Forall₂ ImportStatement.Renders statements texts)
    (quiet : ∀ {statement : ImportStatement} (layout : Layout statement) (before rest : Text),
      p.Quiet before (layout.core ++ [';', '\n']) rest) : p.all texts.flatten = [] := by
  have nowhere : ∀ before, p.Quiet before texts.flatten [] := by
    induction rendered with
    | nil => intro before left c right split; simp at split
    | cons first _ ih =>
        intro before
        obtain ⟨layout, rfl⟩ := first.layout
        exact (quiet layout before _).append (ih _)
  exact allBetween_eq_nil (nowhere [])

/-- The mentions of a text made of import statements are its imports with a clause. -/
theorem mentions_eq (rendered : List.Forall₂ ImportStatement.Renders statements texts) :
    mentions texts.flatten =
      (clauseImport.all texts.flatten).map (Mention.ofClauseImport texts.flatten) := by
  have effects := all_eq_nil_of_quiet rendered (p := effectImport) Layout.effectImport_quiet
  have reexports := all_eq_nil_of_quiet rendered (p := reexport) Layout.reexport_quiet
  have requires := all_eq_nil_of_quiet rendered (p := requireCall)
    fun layout before rest =>
      layout.moduleCall_quiet before rest (by decide) (List.all_eq_true.mp (by decide))
  have calls := all_eq_nil_of_quiet rendered (p := importCall)
    fun layout before rest =>
      layout.moduleCall_quiet before rest (by decide) (List.all_eq_true.mp (by decide))
  have sorted : ((clauseImport.all texts.flatten).map (Mention.ofClauseImport texts.flatten)).Pairwise
      fun a b => decide (a.span.start ≤ b.span.start) = true := by
    rw [List.pairwise_map]
    exact (allFrom_pairwise clauseImport 0 none 0 _).imp fun earlier =>
      decide_eq_true (Nat.le_of_lt earlier)
  rw [mentions, mentionsByForm, effects, reexports, requires, calls]
  simpa using List.mergeSort_of_pairwise sorted

theorem ReadsAs.link? {text : Text} {statement : ImportStatement} {found : Match ClauseImport}
    (read : ReadsAs text statement found) (disk : Disk) (root : Path) (extensions : List String)
    (importer : Path) :
    (Source.link? disk root extensions importer text (Mention.ofClauseImport text found)).map
      Link.summary = statement.link? disk root extensions importer := by
  have bindings := read.bindings fun offset => text.lineOf (found.value.clause.start + offset)
  unfold Source.link? ImportStatement.link?
  simp only [Mention.ofClauseImport, read.specifier]
  cases Resolution.resolve? disk extensions importer (.ofList statement.specifier.text) with
  | none => rfl
  | some target =>
      by_cases within : target.isWithin root = true <;>
        simp [within, Option.filter, Link.summary, bindings]

theorem filterMap_of_readAs {text : Text} {found : List (Match ClauseImport)} (disk : Disk) (root : Path)
    (extensions : List String) (importer : Path)
    (read : List.Forall₂ (ReadsAs text) statements found) :
    (found.filterMap fun one => (Source.link? disk root extensions importer text
      (Mention.ofClauseImport text one)).map Link.summary) =
      statements.filterMap (ImportStatement.link? disk root extensions importer) := by
  induction read with
  | nil => rfl
  | cons first _ ih => rw [List.filterMap_cons, List.filterMap_cons, first.link?, ih]

/-- The links of a text made of import statements are those of the statements, in order. -/
theorem links_of_statements (disk : Disk) (root : Path) (extensions : List String) (importer : Path)
    (rendered : List.Forall₂ ImportStatement.Renders statements texts) :
    (Source.linksOf disk root extensions importer texts.flatten).map Link.summary =
      statements.filterMap (ImportStatement.link? disk root extensions importer) := by
  have read := clauseImports_readAs rendered [] rfl
  rw [List.nil_append, ← all_eq_allBetween] at read
  rw [Source.linksOf, mentions_eq rendered, List.filterMap_map, List.map_filterMap]
  exact filterMap_of_readAs disk root extensions importer read

theorem Specifier.proper_of_all {text : Text}
    (all : text.all (fun c => Text.isWord c || c == '.' || c == '/' || c == '-') = true) :
    ∀ c ∈ text, Text.isWord c = true ∨ c = '.' ∨ c = '/' ∨ c = '-' := by
  intro c member
  have part := List.all_eq_true.mp all c member
  simpa [or_assoc] using part

/-- Two statements with words as names that mean something in other places:
`import type from , { type as as , type type , } from './import';` and
`import export , * as import from "./from";`. -/
def contextualNames : List ImportStatement :=
  [{ typeOnly := true
     clause := .both ⟨Identifier.fromWord, by decide⟩ (.named [
       ⟨false, Identifier.typeWord, some Identifier.asWord⟩,
       ⟨true, Identifier.typeWord, none⟩] true)
     specifier := ⟨"./import".toList, by decide, Specifier.proper_of_all (by decide)⟩
     quote := .single },
   { typeOnly := false
     clause := .both ⟨Identifier.exportWord, by decide⟩ (.wholeModule Identifier.importWord)
     specifier := ⟨"./from".toList, by decide, Specifier.proper_of_all (by decide)⟩
     quote := .double }]

theorem contextualNames_links :
    List.Forall₂ ImportStatement.Renders contextualNames
      (contextualNames.map ImportStatement.render) ∧
    (Source.linksOf ((default : Disk).put (.parse "/import.ts") []) (.parse "/") [".ts"]
      (.parse "/main.ts") (contextualNames.map ImportStatement.render).flatten).map Link.summary =
      [(.parse "/import.ts", "./import", [(.defaultExport, "from", "from"), (.named, "as", "type"),
        (.named, "type", "type")])] := by
  have rendered : List.Forall₂ ImportStatement.Renders contextualNames
      (contextualNames.map ImportStatement.render) :=
    List.forall₂_map_right_iff.mpr (List.forall₂_same.mpr fun statement _ => statement.renders_render)
  exact ⟨rendered, (links_of_statements _ _ _ _ rendered).trans (by decide +kernel)⟩

end Script
end ImportAudit
