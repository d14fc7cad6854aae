import ImportAudit.Proofs.AuditCompletion
import ImportAudit.Proofs.Interruptions
import ImportAudit.Proofs.ResumedSearch
import ImportAudit.Proofs.StandaloneUses

/-! The imports behind an import. Whether a name is used is judged by the text behind its import alone, and
the imports in that text are searched for anew. They are the later imports of the whole text: a link with
a name ends in a quote, so the search in the whole text goes on there as if the text started. -/
namespace ImportAudit

namespace Script
open Pattern Text

def ClauseImport.shift (distance : Nat) (found : ClauseImport) : ClauseImport :=
  ⟨found.clause.shift distance, found.specifier.shift distance⟩

section Moves

variable (distance : Nat)

theorem specifier_moves : Moves distance (Span.shift distance) specifier specifier := by
  have between (quote : Char) :
      Moves distance (Span.shift distance) (quoted quote) (quoted quote) :=
    .bind (.one _) fun _ => .bind (.spanOf (.bind (.one _) fun _ => .run _)) fun _ =>
      .bind (.one _) fun _ => .pure _
  exact (between _).either (between _)

theorem clauseImport_moves :
    Moves distance (ClauseImport.shift distance) clauseImport clauseImport := by
  have modifier : Moves distance id typeModifier typeModifier :=
    .maybe (.bind (.chars _) fun _ => .bind (.one _) fun _ => .many _)
  have clause : Moves distance id clauseText clauseText :=
    .bind (.one _) fun _ => .either (.pure _) (.bind (.one _) fun _ => .fewUntil _ _)
  exact .bind (.wordChars _) fun _ => .bind (.bind (.one _) fun _ => .many _) fun _ =>
    .bind modifier fun _ => .bind (.spanOf clause) fun _ => .bind (.run _) fun _ =>
      .bind (.wordChars _) fun _ => .bind (.run _) fun _ => .bind (specifier_moves distance) fun _ =>
        .pure _

end Moves

variable {text : Text} {found : Match ClauseImport}

/-- An import ends in a quote. -/
theorem clauseImport_edge (member : found ∈ clauseImport.all text) :
    (text.take found.span.stop).getLast?.any isWord = false := by
  have mentioned : .ofClauseImport text found ∈ Form.clauseImport.mentions text :=
    List.mem_map_of_mem member
  obtain ⟨before, taken, rest, rfl, span, -, -, last⟩ := Form.exists_taken mentioned
  have stop : found.span.stop = (before ++ taken).length := congrArg Span.stop span
  rw [stop, ← List.append_assoc, List.take_left]
  exact last

/-- The search behind an import finds what the search in the whole text finds there. -/
theorem all_drop_shift (member : found ∈ clauseImport.all text) :
    (clauseImport.all (text.drop found.span.stop)).map
        (Match.shift found.span.stop (ClauseImport.shift found.span.stop)) =
      (clauseImport.all text).filter fun other => found.span.stop ≤ other.span.start := by
  have ends := clauseImport_advances.stop_le member
  rw [filter_all_eq_allBetween clauseImport_advances member, all,
    ← (clauseImport_moves found.span.stop).allFrom, allBetween, List.length_take,
    Nat.min_eq_left ends, Nat.zero_add]
  exact allFrom_of_prev
    (ways_wordChars_bind_of_prev _ _ (by decide) (clauseImport_edge member).symm)

/-- A name stands alone somewhere in a text. -/
def Names (name text : Text) : Prop := ∃ position, StandsAlone name text position

theorem occurs_standalone (name text : Text) :
    (standalone name).occurs text = true ↔ Names name text := by
  rw [occurs_iff]
  constructor
  · rintro ⟨left, right, rfl, matched⟩
    obtain ⟨way, member⟩ := List.exists_mem_of_ne_nil _ matched
    obtain ⟨free, rest, rfl, ends, -⟩ := mem_ways_standalone.mp member
    exact ⟨left.length, left, rest, rfl, rfl, free, ends⟩
  · rintro ⟨_, left, rest, rfl, rfl, free, ends⟩
    have way : (left.length, .between (left ++ name) rest) ∈
        (standalone name).ways (.between left (name ++ rest)) :=
      mem_ways_standalone.mpr ⟨free, rest, rfl, ends, rfl⟩
    exact ⟨left, name ++ rest, rfl, List.ne_nil_of_mem way⟩

instance (name text : Text) : Decidable (Names name text) :=
  decidable_of_iff _ (occurs_standalone name text)

end Script

namespace Source
open Script Pattern

/-- The imports of the text that start behind a link. -/
def laterImports (source : Source) (link : Link) : List (Match ClauseImport) :=
  (clauseImport.all source.text).filter fun found => link.span.stop ≤ found.span.start

/-- The search in the text behind a link finds the later imports of the whole text, with the same
clauses, and so counts those of them that name a name. -/
structure FindsLater (source : Source) (link : Link) (name : Text) : Prop where
  shifted : (clauseImport.all (source.text.drop link.span.stop)).map
      (Match.shift link.span.stop (ClauseImport.shift link.span.stop)) = source.laterImports link
  clauses : ((clauseImport.all (source.text.drop link.span.stop)).map fun found =>
      Text.slice (source.text.drop link.span.stop) found.value.clause) =
    (source.laterImports link).map fun found => source.text.slice found.value.clause
  mentions : clauseMentions name (source.text.drop link.span.stop) =
    (source.laterImports link).countP fun found => Names name (source.text.slice found.value.clause)

theorem FindsLater.of_shifted {source : Source} {link : Link} {name : Text}
    (shifted : (clauseImport.all (source.text.drop link.span.stop)).map
      (Match.shift link.span.stop (ClauseImport.shift link.span.stop)) = source.laterImports link) :
    source.FindsLater link name := by
  have slices (found : Match ClauseImport) :
      Text.slice (source.text.drop link.span.stop) found.value.clause = source.text.slice
        (Match.shift link.span.stop (ClauseImport.shift link.span.stop) found).value.clause :=
    Text.slice_drop _ _ _
  refine ⟨shifted, ?_, ?_⟩
  · rw [← shifted, List.map_map]
    exact List.map_congr_left fun found _ => slices found
  · rw [← shifted, List.countP_map, clauseMentions]
    refine List.countP_congr fun found _ => ?_
    rw [occurs_standalone, slices, Function.comp_apply, decide_eq_true_eq]

variable {root : Path} {extensions : List String} {source : Source} {link : Link}

theorem WasRead.findsLater (read : source.WasRead root extensions) (listed : link ∈ source.links)
    {binding : Binding} (bound : binding ∈ link.bindings)
    (kind : binding.kind = .defaultExport ∨ binding.kind = .named) (name : Text) :
    source.FindsLater link name := by
  obtain ⟨disk, links⟩ := read.links_eq
  rw [links] at listed
  obtain ⟨form, mentioned⟩ := exists_form listed
  have made := Form.kind_of_mem mentioned bound
  -- Only imports with a clause bind such names.
  obtain rfl : form = .clauseImport := by
    rcases kind with kind | kind <;> cases form <;> simp [Form.binds, kind] at made ⊢
  obtain ⟨found, member, same⟩ := List.mem_map.mp mentioned
  have span : found.span = link.span := congrArg Mention.span same
  apply FindsLater.of_shifted
  rw [laterImports, ← span]
  exact all_drop_shift member

end Source

/-- Whether a default or named import is used is judged by the text behind it. The imports in that text
are the later imports of the whole text, and the uses have to outnumber those that name the name. -/
theorem Codebase.Session.later_imports_found_again (codebase : Codebase) (history : List Moment) :
    ∃ session, (Session.start codebase).run history = .ok session ∧
      ∀ source ∈ session.codebase.sources, ∀ link ∈ source.links, ∀ binding ∈ link.bindings,
        binding.kind = .defaultExport ∨ binding.kind = .named →
        source.FindsLater link binding.localName.toList ∧
        Script.isBindingUsed source.text link.span binding = .ok (decide
          ((source.laterImports link).countP (fun found =>
              Script.Names binding.localName.toList (source.text.slice found.value.clause)) <
            (Script.usePositions binding.localName.toList
              (source.text.drop link.span.stop)).length)) := by
  obtain ⟨session, ran, read⟩ := Session.run_wasRead codebase history
  refine ⟨session, ran, fun source loaded link listed binding bound kind => ?_⟩
  have finds := (read source loaded).findsLater listed bound kind binding.localName.toList
  refine ⟨finds, ?_⟩
  rw [← finds.mentions]
  unfold Script.isBindingUsed Script.isNameUsed
  rcases kind with kind | kind <;> rw [kind]

/-- A name is imported, imported again under another name, and called. -/
def importedAgain : Text := "import a from './b'\nimport { a as c } from './b'\na()\n".toList

def importedAgainDisk : Disk :=
  ((default : Disk).put (.parse "/b.ts") []).put (.parse "/a.ts") (Text.Utf8.encode importedAgain)

/-- The one call does not outnumber the one later import that names the name. -/
theorem importedAgain_found_again :
    ∃ session, ∃ source ∈ session.codebase.sources, ∃ link ∈ source.links, ∃ binding ∈ link.bindings,
      (Codebase.Session.start (.empty (.parse "/") [".ts"])).run [⟨importedAgainDisk, .load (.parse "/a.ts")⟩] =
        .ok session ∧
      binding.kind = .defaultExport ∧ (source.laterImports link).map Match.span = [⟨20, 48⟩] ∧
      source.FindsLater link binding.localName.toList ∧
      Script.isBindingUsed source.text link.span binding = .ok false := by
  have there : importedAgainDisk.node (.parse "/a.ts") =
      .ok (.file (Text.Utf8.encode importedAgain)) := by decide +kernel
  have text : Source.textOf (Text.Utf8.encode importedAgain) = importedAgain := by decide +kernel
  have sorted : Script.mentions importedAgain = Script.mentionsByForm importedAgain :=
    List.mergeSort_of_pairwise (by decide +kernel)
  obtain ⟨session, ran, finds⟩ :=
    Codebase.Session.later_imports_found_again (.empty (.parse "/") [".ts"])
      [⟨importedAgainDisk, .load (.parse "/a.ts")⟩]
  obtain ⟨session', ran', sources⟩ := Codebase.Session.run_load there
  obtain rfl : session = session' := Except.ok.inj (ran.symm.trans ran')
  obtain ⟨link, linked, binding, bound, kind, later, used⟩ :
      ∃ link ∈ Source.linksOf importedAgainDisk (.parse "/") [".ts"] (.parse "/a.ts") importedAgain,
        ∃ binding ∈ link.bindings, binding.kind = .defaultExport ∧
        (((Script.clauseImport.all importedAgain).filter fun found =>
          link.span.stop ≤ found.span.start).map Match.span) = [⟨20, 48⟩] ∧
        Script.isBindingUsed importedAgain link.span binding = .ok false := by
    rw [Source.linksOf, sorted]
    decide +kernel
  simp only [Source.parse, text] at sources
  have loaded := sources ▸ List.mem_singleton_self _
  have found := finds _ loaded link linked binding bound (.inl kind)
  exact ⟨session, _, loaded, link, linked, binding, bound, ran, kind, later, found.1, used⟩

end ImportAudit
