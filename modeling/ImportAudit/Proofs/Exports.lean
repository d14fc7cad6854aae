import ImportAudit.Proofs.ExportedDeclarations
import ImportAudit.Proofs.NameOrder
import ImportAudit.Proofs.SearchCoverage

/-! The names that a script exports. In a text of export statements the four searches find the names of
the statements and no others, each search those of its own form: what is read from the written statements
is what they say. -/
namespace ImportAudit.Script
open Pattern Text

theorem defaultExport_consumes : defaultExport.Consumes := by
  intro before after found way
  obtain ⟨⟨⟩, place, word, way⟩ := mem_ways_bind.mp way
  obtain ⟨-, rest, rfl, ⟨⟩⟩ := mem_ways_wordChars.mp word
  have later : (do blankRun1; literal "default"; boundary : Pattern Unit).Advances :=
    .bind (.bind (.one _) fun _ => .run _) fun _ => .bind (.chars _) fun _ => .between _
  obtain ⟨taken, rest, rfl, moved⟩ := later _ _ _ way
  exact ⟨Identifier.exportWord.text ++ taken, rest, by simp [Identifier.exportWord.nonempty],
    (List.append_assoc _ _ _).symm, by rw [moved, List.append_assoc]; rfl⟩

theorem mem_map_ofList {name : String} {texts : List Text} :
    name ∈ texts.map String.ofList ↔ name.toList ∈ texts := by
  constructor
  · intro member
    obtain ⟨text, listed, rfl⟩ := List.mem_map.mp member
    rwa [String.toList_ofList]
  · intro member
    exact List.mem_map.mpr ⟨name.toList, member, String.ofList_toList⟩

namespace ExportStatement

/-- Statements one after the other. -/
def script (statements : List ExportStatement) : Text := statements.flatMap render

variable {α : Type} {p : Pattern α} {read : Text → α → List Text} {own : ExportStatement → List Text}

theorem flatMap_all (each : ∀ statement, Reads p read statement.render (own statement))
    (statements : List ExportStatement) :
    ((p.all (script statements)).flatMap fun found => read (script statements) found.value) =
      statements.flatMap own := by
  have nonempty (statement : ExportStatement) : statement.render ≠ [] := by
    simp [render, Identifier.exportWord.nonempty]
  have ends (statement : ExportStatement) : statement.render.getLast?.any isWord = false := by
    have lineEnd : [';', '\n'] ≠ [] := by decide
    rw [render, ← List.append_assoc, List.getLast?_append_of_ne_nil _ lineEnd]
    decide
  exact (Reads.flatMap each nonempty ends statements).all_eq

theorem mem_names {statement : ExportStatement} {text : Text} : text ∈ statement.names ↔
    text ∈ statement.declared ∨ text ∈ statement.listed ∨ text ∈ statement.starred ∨
      text ∈ statement.defaults := by
  cases statement <;> simp [names, ExportStatement.declared, listed, starred, defaults]

end ExportStatement

theorem map_wordAt (text : Text) (found : List (Match Span)) :
    (found.map fun one => wordAt text one.value) =
      (found.flatMap fun one => readName text one.value).map String.ofList := by
  simp [readName, wordAt, List.map_eq_flatMap, List.flatMap_assoc]

theorem mem_defaults {statements : List ExportStatement} {text : Text} :
    text ∈ statements.flatMap ExportStatement.defaults ↔
      text = Identifier.defaultWord.text ∧ defaultExport.occurs (ExportStatement.script statements) = true := by
  rw [occurs_iff_all_ne_nil defaultExport_consumes, ← ExportStatement.flatMap_all defaultExport_reads]
  constructor
  · intro member
    obtain ⟨found, listed, named⟩ := List.mem_flatMap.mp member
    exact ⟨List.mem_singleton.mp named, List.ne_nil_of_mem listed⟩
  · rintro ⟨rfl, some⟩
    obtain ⟨found, listed⟩ := List.exists_mem_of_ne_nil _ some
    exact List.mem_flatMap.mpr ⟨found, listed, List.mem_singleton_self _⟩

theorem mem_exportMentions {statements : List ExportStatement} {name : String} :
    name ∈ exportMentions (ExportStatement.script statements) ↔
      ∃ statement ∈ statements, name.toList ∈ statement.names := by
  have lists : ((exportList.all (ExportStatement.script statements)).flatMap fun found =>
      (listNames ((ExportStatement.script statements).slice found.value)).map String.ofList) =
      (statements.flatMap ExportStatement.listed).map String.ofList := by
    rw [← ExportStatement.flatMap_all exportList_reads, List.map_flatMap]
    rfl
  have default : (name ∈ if defaultExport.occurs (ExportStatement.script statements) then ["default"] else []) ↔
      name.toList ∈ statements.flatMap ExportStatement.defaults := by
    rw [mem_defaults]
    have same : name.toList = Identifier.defaultWord.text ↔ name = "default" := String.toList_inj
    split <;> simp_all
  rw [exportMentions, map_wordAt, map_wordAt, lists, ExportStatement.flatMap_all exportedDeclaration_reads,
    ExportStatement.flatMap_all exportedNamespace_reads]
  simp only [List.mem_append, mem_map_ofList, default, List.mem_flatMap, ExportStatement.mem_names,
    and_or_left, exists_or, or_assoc]

/-- What a text of export statements exports are the names of the statements, in ascending order and each
once. -/
theorem exports_script (statements : List ExportStatement) :
    (∀ name, name ∈ exports (ExportStatement.script statements) ↔
      ∃ statement ∈ statements, name.toList ∈ statement.names) ∧
    (exports (ExportStatement.script statements)).Pairwise (· < ·) := by
  constructor
  · intro name
    rw [exports, mem_sortedNames, mem_exportMentions]
  · exact sortedNames_ascend _

end ImportAudit.Script
