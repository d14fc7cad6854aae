import ImportAudit.Script.Binding

/-! Every place where a script names another module, in the order of the text. -/
namespace ImportAudit.Script

/-- A stretch of text that names another module, with the names it binds. -/
structure Mention where
  span : Span
  specifier : String
  bindings : List Binding
deriving DecidableEq, Repr, Inhabited

namespace Mention

def ofClauseImport (text : Text) (found : Match ClauseImport) : Mention :=
  let clause := found.value.clause
  { span := found.span
    specifier := wordAt text found.value.specifier
    bindings := clauseBindings (fun offset => text.lineOf (clause.start + offset))
      (text.slice clause) }

/-- A mention that binds nothing. -/
def ofBare (text : Text) (found : Match Span) : Mention :=
  ⟨found.span, wordAt text found.value, []⟩

/-- A call stands for the default of its module, on the line where the call starts. -/
def ofCall (kind : BindingKind) (text : Text) (found : Match Span) : Mention :=
  ⟨found.span, wordAt text found.value,
    [⟨kind, "default", "default", text.lineOf found.span.start⟩]⟩

end Mention

/-- The mentions of a text, form by form. -/
def mentionsByForm (text : Text) : List Mention :=
  (clauseImport.all text).map (Mention.ofClauseImport text) ++
    (effectImport.all text).map (Mention.ofBare text) ++
    (reexport.all text).map (Mention.ofBare text) ++
    (requireCall.all text).map (Mention.ofCall .requireCall text) ++
    (importCall.all text).map (Mention.ofCall .importCall text)

/-- The mentions of a text, in the order in which they start. -/
def mentions (text : Text) : List Mention :=
  (mentionsByForm text).mergeSort fun a b => a.span.start ≤ b.span.start

end ImportAudit.Script
