import ImportAudit.Proofs.ImportLines
import Mathlib.Data.List.Forall2

/-! The imports that a search finds in a text of import lines. They are the lines, each as a whole and in
order, so nothing but line ends lies outside them. -/
namespace ImportAudit.Script
open Pattern Text

section Search

variable {lines : List ImportLine} {text : Text}

/-- The next line starts at a word boundary. -/
theorem edge_of_feed (before : Text) : (before ++ [';', '\n']).getLast?.any isWord = false := by
  rw [List.getLast?_append_of_ne_nil _ (by simp)]
  decide

/-- Both searches pass over the end of a line. -/
theorem import_pass {α : Type} {next : Unit → Pattern α} (before : Text) {stretch : Text} (rest : Text)
    (wordless : ∀ c ∈ stretch, isIdentifier c = false) :
    (wordChars Identifier.importWord.text >>= next).allBetween before (stretch ++ rest) =
      (wordChars Identifier.importWord.text >>= next).allBetween (before ++ stretch) rest :=
  allBetween_pass (wordless_quiet Identifier.importWord.nonempty Identifier.importWord.proper wordless)

theorem Follow.import_nil {α : Type} {next : Unit → Pattern α} (before : Text)
    (follow : Follow [] text) :
    (wordChars Identifier.importWord.text >>= next).allBetween before text = [] := by
  have wordless : ∀ c ∈ text, isIdentifier c = false := by
    cases follow with
    | last => exact fun c member => lineEnd_wordless c (List.mem_append_left ['\n'] member)
    | feed => exact lineEnd_wordless
  have passed := @import_pass α next before text [] wordless
  simpa using passed

/-- The clauses of the lines, each with the lines behind it. -/
def clausesOf : List ImportLine → List (LineClause × List ImportLine)
  | [] => []
  | .clause _ clause _ :: later => (clause, later) :: clausesOf later
  | .effect _ :: later => clausesOf later

/-- A match in a text stands for a clause and the lines behind it. -/
def Stands (text : Text) (entry : LineClause × List ImportLine) (found : Match ClauseImport) : Prop :=
  entry.1.Reads (text.slice found.value.clause) ∧ Follow entry.2 (text.drop found.span.stop)

theorem LineText.clauseImports {line : ImportLine} {later : List ImportLine} {rest : Text}
    (written : LineText line) (before : Text) (edge : before.getLast?.any isWord = false)
    (follow : Follow later rest)
    (behind : List.Forall₂ (Stands (before ++ written.core ++ rest)) (clausesOf later)
      (clauseImport.allBetween (before ++ written.core) rest)) :
    List.Forall₂ (Stands (before ++ written.core ++ rest)) (clausesOf (line :: later))
      (clauseImport.allBetween before (written.core ++ rest)) := by
  cases line with
  | clause typeOnly clause specifier =>
      obtain ⟨found, matched, reads⟩ := written.clauseImport_found before rest edge
      rw [matched]
      rw [← List.append_assoc] at reads
      exact .cons ⟨reads, by simpa using follow⟩ behind
  | effect specifier =>
      rw [written.clauseImport_pass]
      exact behind

/-- The search for imports with a clause finds those of the lines, in order. -/
theorem Follow.clauseImports (follow : Follow lines text) (before : Text) :
    List.Forall₂ (Stands (before ++ text)) (clausesOf lines) (clauseImport.allBetween before text) := by
  induction follow generalizing before with
  | last =>
      have none : clauseImport.allBetween before [';'] = [] := Follow.last.import_nil before
      rw [none]
      exact .nil
  | feed =>
      have none : clauseImport.allBetween before [';', '\n'] = [] := Follow.feed.import_nil before
      rw [none]
      exact .nil
  | @next line lines rest written follow ih =>
      have passed : clauseImport.allBetween before ([';', '\n'] ++ (written.core ++ rest)) =
          clauseImport.allBetween (before ++ [';', '\n']) (written.core ++ rest) :=
        import_pass before (written.core ++ rest) lineEnd_wordless
      have step := written.clauseImports (before ++ [';', '\n']) (edge_of_feed before) follow
        (ih (before ++ [';', '\n'] ++ written.core))
      rw [← passed] at step
      simpa using step

theorem Writes.clauseImports (writes : Writes lines text) :
    List.Forall₂ (Stands text) (clausesOf lines) (clauseImport.all text) := by
  cases writes with
  | none => exact .nil
  | lines written follow => exact written.clauseImports [] rfl follow (follow.clauseImports written.core)

/-- The stretches of the imports from a place on. -/
def spansBetween (before after : Text) : List Span :=
  (clauseImport.allBetween before after).map Match.span ++
    (effectImport.allBetween before after).map Match.span

/-- A line is one of the stretches, and those behind it are found behind it. -/
theorem LineText.spans {line : ImportLine} {rest : Text} (written : LineText line) (before : Text)
    (edge : before.getLast?.any isWord = false) (ends : ∀ c, rest.head? = some c → c = '\n') :
    ⟨before.length, (before ++ written.core).length⟩ ∈ spansBetween before (written.core ++ ';' :: rest) ∧
      spansBetween (before ++ written.core) (';' :: rest) ⊆
        spansBetween before (written.core ++ ';' :: rest) := by
  cases line with
  | clause typeOnly clause specifier =>
      obtain ⟨found, matched, -⟩ := written.clauseImport_found before (';' :: rest) edge
      rw [spansBetween, spansBetween, matched, written.effectImport_pass before ends]
      refine ⟨by simp, ?_⟩
      exact List.append_subset.mpr ⟨by simp, by simp⟩
  | effect specifier =>
      obtain ⟨found, matched⟩ := written.effectImport_found before (';' :: rest) edge
      rw [spansBetween, spansBetween, matched, written.clauseImport_pass before]
      refine ⟨by simp, ?_⟩
      exact List.append_subset.mpr ⟨by simp, by simp⟩

/-- Apart from line ends, everything lies in an import. -/
def Covered (before text : Text) : Prop :=
  ∀ left c right, text = left ++ c :: right → c ≠ ';' → c ≠ '\n' →
    ∃ span ∈ spansBetween before text, span.covers (before ++ left).length = true

theorem LineText.covered {line : ImportLine} {rest : Text} (written : LineText line) (before : Text)
    (edge : before.getLast?.any isWord = false) (ends : ∀ c, rest.head? = some c → c = '\n')
    (behind : Covered (before ++ written.core) (';' :: rest)) :
    Covered before (written.core ++ ';' :: rest) := by
  intro left c right split semicolon feed
  obtain ⟨own, later⟩ := written.spans before edge ends
  rcases List.append_eq_append_iff.mp split with ⟨extra, rfl, tail⟩ | ⟨extra, core, tail⟩
  · obtain ⟨span, listed, covers⟩ := behind extra c right tail semicolon feed
    exact ⟨span, later listed, by simpa using covers⟩
  · cases extra with
    | nil => exact absurd (List.cons_eq_cons.mp tail).1 semicolon
    | cons d extra =>
        refine ⟨_, own, ?_⟩
        simp only [Span.covers, core, List.length_append, List.length_cons, Bool.and_eq_true,
          decide_eq_true_eq]
        omega

theorem Follow.covered (follow : Follow lines text) (before : Text) : Covered before text := by
  induction follow generalizing before with
  | last =>
      intro left c right split semicolon feed
      have inside : c ∈ [';'] := split ▸ List.mem_append_right left List.mem_cons_self
      exact absurd (List.mem_singleton.mp inside) semicolon
  | feed =>
      intro left c right split semicolon feed
      have inside : c ∈ [';', '\n'] := split ▸ List.mem_append_right left List.mem_cons_self
      simp [semicolon, feed] at inside
  | @next line lines rest written follow ih =>
      obtain ⟨after, rfl, ends⟩ := follow.lineEnd
      have step := written.covered (before ++ [';', '\n']) (edge_of_feed before) ends
        (ih (before ++ [';', '\n'] ++ written.core))
      have passed : spansBetween before ([';', '\n'] ++ (written.core ++ ';' :: after)) =
          spansBetween (before ++ [';', '\n']) (written.core ++ ';' :: after) := by
        have clauses : clauseImport.allBetween before ([';', '\n'] ++ (written.core ++ ';' :: after)) =
          _ := import_pass before (written.core ++ ';' :: after) lineEnd_wordless
        have effects : effectImport.allBetween before ([';', '\n'] ++ (written.core ++ ';' :: after)) =
          _ := import_pass before (written.core ++ ';' :: after) lineEnd_wordless
        rw [spansBetween, clauses, effects]
        rfl
      intro left c right split semicolon feed
      match left with
      | [] => exact absurd (List.cons_eq_cons.mp split).1.symm semicolon
      | [d] =>
          obtain ⟨-, tail⟩ := List.cons_eq_cons.mp split
          exact absurd (List.cons_eq_cons.mp tail).1.symm feed
      | d :: e :: left =>
          obtain ⟨rfl, behind⟩ := List.cons_eq_cons.mp split
          obtain ⟨rfl, inside⟩ := List.cons_eq_cons.mp behind
          obtain ⟨span, listed, covers⟩ := step left c right inside semicolon feed
          rw [← passed] at listed
          exact ⟨span, listed, by simpa using covers⟩

theorem Writes.covered (writes : Writes lines text) : Covered [] text := by
  cases writes with
  | none =>
      intro left c right split
      simp at split
  | lines written follow =>
      have behind := follow.covered written.core
      obtain ⟨after, rfl, ends⟩ := follow.lineEnd
      exact written.covered [] rfl ends behind

end Search

end ImportAudit.Script
