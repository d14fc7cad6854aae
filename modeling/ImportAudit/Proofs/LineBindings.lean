import ImportAudit.Proofs.ImportLines

/-! The names that are read from the clause of an import line are names that the line binds. Each part of
a clause is recognized by its tokens: a default name comes first, a namespace name behind a star, and
the items of a list between the commas within braces. -/
namespace ImportAudit.Script
open Pattern Text

/-- A mark that is no token's does not stand in the text. -/
theorem not_mem_of_lex {text : Text} {c : Char} (solid : isBlank c = false)
    (absent : ∀ token ∈ lex text, c ∉ token) : c ∉ text := by
  intro member
  rcases mem_of_lex member with blank | ⟨token, listed, inside⟩
  · simp [blank] at solid
  · exact absent token listed inside

section Selection

variable {line : Nat → Int} {left right : Text} {binding : Binding}

end Selection

/-- A selection does not start with a name. -/
theorem Selection.tokens_ne (selection : Selection) (name : Identifier) (tokens : List Text) :
    selection.tokens ≠ name.text :: tokens := by
  intro shape
  cases selection with
  | wholeModule other =>
      obtain ⟨same, -⟩ := List.cons_eq_cons.mp shape
      exact absurd (name.proper '*' (same ▸ List.mem_singleton_self _)) (by decide)
  | named items trailing =>
      obtain ⟨same, -⟩ := List.cons_eq_cons.mp shape
      exact absurd (name.proper '{' (same ▸ List.mem_singleton_self _)) (by decide)

namespace LineClause

variable {clause : LineClause} {names : Text}

theorem not_mem_of_name {c : Char} (name : Identifier) (mark : isIdentifier c = false)
    (solid : isBlank c = false) (comma : c ≠ ',') {text : Text}
    (tokens : ∀ token ∈ lex text, token = name.text ∨ token = [',']) : c ∉ text := by
  refine not_mem_of_lex solid fun token listed inside => ?_
  rcases tokens token listed with rfl | rfl
  · exact name.not_mem mark inside
  · exact comma (List.mem_singleton.mp inside)

/-- What is read from a clause holds its selection behind a text without stars and braces, or it holds
none of them. -/
theorem Reads.selection (reads : clause.Reads names) :
    (∃ (selection : Selection) (left right : Text), names = left ++ right ∧ lex right = selection.tokens ∧
      selection.locals ⊆ clause.locals ∧ '*' ∉ left ∧ '{' ∉ left) ∨ '*' ∉ names ∧ '{' ∉ names := by
  have absent : ∀ {text : Text} (name : Identifier),
      (∀ token ∈ lex text, token = name.text ∨ token = [',']) → '*' ∉ text ∧ '{' ∉ text :=
    fun name tokens => ⟨not_mem_of_name name (by decide) (by decide) (by decide) tokens,
      not_mem_of_name name (by decide) (by decide) (by decide) tokens⟩
  cases clause with
  | default name =>
      refine .inr (absent name fun token listed => .inl ?_)
      rcases reads with own | typed
      · rw [own] at listed
        exact List.mem_singleton.mp listed
      · have empty : lex names = [] := (List.cons_eq_cons.mp typed).2.symm
        rw [empty] at listed
        cases listed
  | selected selection =>
      rcases reads with own | typed
      · exact .inl ⟨selection, [], names, rfl, own, fun _ => id, by simp, by simp⟩
      · exact absurd typed (selection.tokens_ne Identifier.typeWord _)
  | both name selection =>
      obtain ⟨start, shape, among⟩ : ∃ start, lex names = start ++ selection.tokens ∧
          ∀ token ∈ start, token = name.text ∨ token = [','] := by
        rcases reads with own | typed
        · exact ⟨[name.text, [',']], own, by simp⟩
        · exact ⟨[[',']], (List.cons_eq_cons.mp typed).2.symm, by simp⟩
      obtain ⟨left, right, rfl, own, later, -⟩ := exists_of_lex_append shape
      obtain ⟨star, brace⟩ := absent name (own ▸ among)
      exact .inl ⟨selection, left, right, rfl, later, fun _ => List.mem_cons_of_mem _, star, brace⟩

end LineClause

end ImportAudit.Script
