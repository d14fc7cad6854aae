import ImportAudit.Proofs.AuditCompletion
import Mathlib.Algebra.Ring.Nat

/-! The verdict of a run and the listing after it. A listing shows the findings of the analyses that
the last mode makes, and no finding is lost in its text; the verdict is about all findings on record,
and so also about those that the run has left as they were. -/
namespace ImportAudit

namespace Text

/-- The length of some lines, each with its line feed. -/
def linesLength (lines : List String) : Nat := (lines.map (·.length + 1)).sum

@[simp] theorem linesLength_nil : linesLength [] = 0 := rfl

@[simp] theorem linesLength_cons (line : String) (lines : List String) :
    linesLength (line :: lines) = line.length + 1 + linesLength lines := by
  simp [linesLength]

@[simp] theorem linesLength_append (lines others : List String) :
    linesLength (lines ++ others) = linesLength lines + linesLength others := by
  simp [linesLength]

/-- The last line has no line feed. -/
theorem length_joinLines {lines : List String} (some : lines ≠ []) :
    (joinLines lines).length + 1 = linesLength lines := by
  induction lines with
  | nil => exact absurd rfl some
  | cons line lines ih =>
      cases lines with
      | nil => rfl
      | cons next lines =>
          have rest := ih (List.cons_ne_nil next lines)
          have feed : "\n".length = 1 := rfl
          change (line ++ "\n" ++ joinLines (next :: lines)).length + 1 = _
          rw [linesLength_cons, ← rest, String.length_append, String.length_append, feed]
          omega

end Text

namespace Finding

variable {root : Path}

/-- The listings of no findings. -/
def noFiles : String := "UNUSED FILES:"

def noImports : String :=
  Text.joinLines ["", "=== UNUSED IMPORTS ===", "", "No unused imports found!", "",
    "=== FILES IMPORTED BUT NOT USED ===", "", "No unused file imports found!"]

theorem length_filesListing (root : Path) (unused : List Path) :
    (filesListing root unused).length =
      noFiles.length + Text.linesLength (unused.map root.renderFrom) := by
  have joined := @Text.length_joinLines (filesLines root unused) (List.cons_ne_nil _ _)
  simp only [filesLines, Text.linesLength_cons] at joined
  change (Text.joinLines (filesLines root unused)).length = "UNUSED FILES:".length + _
  unfold filesLines
  omega

/-- The lines of the unused bindings; a line of its own says that there are none. -/
def bindingLines (root : Path) (bindings : List UnusedBinding) : List String :=
  (if bindings.isEmpty then ["No unused imports found!"] else []) ++ bindings.map (bindingLine root)

def targetLines (root : Path) (targets : List UnusedTarget) : List String :=
  (if targets.isEmpty then ["No unused file imports found!"] else []) ++
    (byTarget root targets).flatMap (groupLines root)

theorem length_bindingLine (root : Path) (finding : UnusedBinding) :
    "No unused imports found!".length < (bindingLine root finding).length := by
  -- The fixed parts of the line are long enough.
  have parts : ∀ file line kind name target colon unused imported origin quote : String,
      unused.length + imported.length + origin.length ≤
        (file ++ colon ++ line ++ unused ++ kind ++ imported ++ name ++ origin ++ target ++
          quote).length := by
    intros
    simp only [String.length_append]
    omega
  have fixed : "No unused imports found!".length <
      " - Unused ".length + " import '".length + "' from '".length := by decide +kernel
  exact fixed.trans_le (parts ..)

theorem length_targetLine (root : Path) (finding : UnusedTarget) :
    "No unused file imports found!".length ≤ (targetLine root finding).length := by
  have parts : ∀ imported file colon line unused : String,
      imported.length + unused.length ≤ (imported ++ file ++ colon ++ line ++ unused).length := by
    intros
    simp only [String.length_append]
    omega
  have fixed : "No unused file imports found!".length ≤
      "  - Imported in ".length + " but not used".length := by decide +kernel
  exact fixed.trans (parts ..)

/-- Lines that say there is nothing are shorter than lines about something. -/
theorem length_bindingLines (root : Path) (bindings : List UnusedBinding) :
    Text.linesLength (bindingLines root []) ≤ Text.linesLength (bindingLines root bindings) ∧
      (Text.linesLength (bindingLines root bindings) = Text.linesLength (bindingLines root []) →
        bindings = []) := by
  cases bindings with
  | nil => simp
  | cons finding bindings =>
      have line := length_bindingLine root finding
      have none : Text.linesLength (bindingLines root []) =
          "No unused imports found!".length + 1 := by
        simp [bindingLines]
      have all : Text.linesLength (bindingLines root (finding :: bindings)) =
          (bindingLine root finding).length + 1 +
            Text.linesLength (bindings.map (bindingLine root)) := by
        simp [bindingLines]
      generalize "No unused imports found!".length = short at line none
      omega

theorem insertGroup_nonempty {heading : String} {finding : UnusedTarget}
    {groups : List (String × List UnusedTarget)} (nonempty : ∀ group ∈ groups, group.2 ≠ []) :
    insertGroup heading finding groups ≠ [] ∧
      ∀ group ∈ insertGroup heading finding groups, group.2 ≠ [] := by
  induction groups with
  | nil => simp [insertGroup]
  | cons group groups ih =>
      obtain ⟨first, others⟩ := List.forall_mem_cons.mp nonempty
      rw [insertGroup]
      split
      · exact ⟨List.cons_ne_nil _ _, List.forall_mem_cons.mpr ⟨by simp, others⟩⟩
      · exact ⟨List.cons_ne_nil _ _, List.forall_mem_cons.mpr ⟨first, (ih others).2⟩⟩

/-- Some findings make some groups, each with some findings. -/
theorem byTarget_nonempty (root : Path) {targets : List UnusedTarget} (some : targets ≠ []) :
    byTarget root targets ≠ [] ∧ ∀ group ∈ byTarget root targets, group.2 ≠ [] := by
  obtain ⟨earlier, last, rfl⟩ := List.eq_nil_or_concat' targets |>.resolve_left some
  have all : ∀ targets : List UnusedTarget, ∀ group ∈ byTarget root targets, group.2 ≠ [] := by
    intro targets
    unfold byTarget
    refine List.foldlRecOn (motive := fun groups : List (String × List UnusedTarget) =>
      ∀ group ∈ groups, group.2 ≠ []) _ _ (by simp) ?_
    intro groups nonempty finding _
    exact (insertGroup_nonempty nonempty).2
  refine ⟨?_, all _⟩
  rw [byTarget, List.foldl_append]
  exact (insertGroup_nonempty (all earlier)).1

theorem length_targetLines (root : Path) (targets : List UnusedTarget) :
    Text.linesLength (targetLines root []) ≤ Text.linesLength (targetLines root targets) ∧
      (Text.linesLength (targetLines root targets) = Text.linesLength (targetLines root []) →
        targets = []) := by
  cases targets with
  | nil => simp
  | cons finding targets =>
      obtain ⟨some, full⟩ := byTarget_nonempty root (List.cons_ne_nil finding targets)
      obtain ⟨⟨heading, group⟩, groups, grouped⟩ := List.exists_cons_of_ne_nil some
      obtain ⟨first, others, rfl⟩ := List.exists_cons_of_ne_nil
        (full (heading, group) (grouped ▸ List.mem_cons_self))
      have line := length_targetLine root first
      have all : Text.linesLength (targetLines root (finding :: targets)) =
          1 + ((heading ++ ":").length + 1 + ((targetLine root first).length + 1 +
            Text.linesLength (others.map (targetLine root)))) +
            Text.linesLength (groups.flatMap (groupLines root)) := by
        simp [targetLines, grouped, groupLines, Nat.add_assoc]
      have none : Text.linesLength (targetLines root []) =
          "No unused file imports found!".length + 1 := by
        simp [targetLines, byTarget]
      generalize "No unused file imports found!".length = short at line none
      omega

theorem length_importsListing (root : Path) (bindings : List UnusedBinding)
    (targets : List UnusedTarget) :
    (importsListing root bindings targets).length + 1 =
      Text.linesLength ["", "=== UNUSED IMPORTS ===", ""] +
        Text.linesLength (bindingLines root bindings) +
        Text.linesLength ["", "=== FILES IMPORTED BUT NOT USED ===", ""] +
        Text.linesLength (targetLines root targets) := by
  rw [importsListing, Text.length_joinLines (by simp [importsLines])]
  simp only [importsLines, bindingLines, targetLines, Text.linesLength_append]
  omega

/-- The listing of the unused files and the one of the unused imports are shortest where they list
nothing, and only there. -/
theorem filesListing_shortest (root : Path) (unused : List Path) :
    noFiles.length ≤ (filesListing root unused).length ∧
      ((filesListing root unused).length = noFiles.length → unused = []) := by
  rw [length_filesListing]
  cases unused with
  | nil => simp
  | cons file unused =>
      rw [List.map_cons, Text.linesLength_cons]
      omega

theorem importsListing_shortest (root : Path) (bindings : List UnusedBinding)
    (targets : List UnusedTarget) :
    noImports.length ≤ (importsListing root bindings targets).length ∧
      ((importsListing root bindings targets).length = noImports.length →
        bindings = [] ∧ targets = []) := by
  have empty : noImports = importsListing root [] [] := rfl
  have least := length_importsListing root [] []
  have all := length_importsListing root bindings targets
  obtain ⟨bindingsLeast, noBindings⟩ := length_bindingLines root bindings
  obtain ⟨targetsLeast, noTargets⟩ := length_targetLines root targets
  rw [empty]
  refine ⟨by omega, fun same => ⟨noBindings ?_, noTargets ?_⟩⟩
  · omega
  · omega

end Finding

/-- The text that a listing in the mode has where it lists nothing. -/
def Mode.emptyListing : Mode → String
  | files => Finding.noFiles
  | imports => Finding.noImports
  | all => Finding.noFiles ++ "\n" ++ Finding.noImports

theorem Mode.name_of_ofName? {mode : Mode} {name : String} (known : ofName? name = some mode) :
    mode.name = name := by
  simpa using List.find?_some known

namespace Audit

variable {disk : Disk} {audit : Audit} {modeName : String} {verdict : Bool}

/-- A listing lists nothing exactly where the analyses of its mode have found nothing. -/
theorem listing_eq_iff (audit : Audit) :
    audit.listing = audit.mode.emptyListing ↔
      (audit.mode.tracesFiles = true → audit.unusedFiles = []) ∧
      (audit.mode.checksImports = true →
        audit.unusedBindings = [] ∧ audit.unusedTargets = []) := by
  obtain ⟨filesLeast, noFiles⟩ :=
    Finding.filesListing_shortest audit.settings.root audit.unusedFiles
  obtain ⟨importsLeast, noImports⟩ := Finding.importsListing_shortest audit.settings.root
    audit.unusedBindings audit.unusedTargets
  constructor
  · intro same
    have lengths := congrArg String.length same
    unfold listing at lengths
    cases mode : audit.mode with
    | files =>
        rw [mode] at lengths
        exact ⟨fun _ => noFiles lengths, nofun⟩
    | imports =>
        rw [mode] at lengths
        exact ⟨nofun, fun _ => noImports lengths⟩
    | all =>
        rw [mode] at lengths
        change (Finding.filesListing _ _ ++ "\n" ++ Finding.importsListing _ _ _).length =
          (Finding.noFiles ++ "\n" ++ Finding.noImports).length at lengths
        simp only [String.length_append] at lengths
        exact ⟨fun _ => noFiles (by omega), fun _ => noImports (by omega)⟩
  · rintro ⟨files, imports⟩
    unfold listing
    cases mode : audit.mode with
    | files =>
        rw [files (by rw [mode]; rfl)]
        rfl
    | imports =>
        obtain ⟨bindings, targets⟩ := imports (by rw [mode]; rfl)
        rw [bindings, targets]
        rfl
    | all =>
        obtain ⟨bindings, targets⟩ := imports (by rw [mode]; rfl)
        rw [files (by rw [mode]; rfl), bindings, targets]
        rfl

theorem isClean_iff (audit : Audit) :
    audit.isClean = true ↔ audit.unusedFiles = [] ∧ audit.unusedBindings = [] ∧
      audit.unusedTargets = [] := by
  simp [isClean, and_assoc]

/-- A run that gives a verdict: it is about all findings on record, where those of an analysis that the
mode does not make are as they were. -/
structure Judges (mode : Mode) (audit next : Audit) (verdict : Bool) : Prop where
  mode_eq : next.mode = mode
  verdict_eq : verdict = next.isClean
  files : mode.tracesFiles = false → next.unusedFiles = audit.unusedFiles
  imports : mode.checksImports = false →
    next.unusedBindings = audit.unusedBindings ∧ next.unusedTargets = audit.unusedTargets

theorem judgeImports_judges (ended : (audit.judgeImports disk).outcome = .ok verdict) :
    verdict = (audit.judgeImports disk).audit.isClean ∧
      (audit.judgeImports disk).audit.mode = audit.mode ∧
      (audit.judgeImports disk).audit.unusedFiles = audit.unusedFiles := by
  unfold judgeImports at ended ⊢
  split at ended
  · cases ended
  · exact ⟨(Except.ok.inj ended).symm, rfl, rfl⟩

theorem traced_keeps (disk : Disk) (audit : Audit) :
    (audit.traced disk).1.mode = audit.mode ∧
      (audit.mode.tracesFiles = false → (audit.traced disk).1.unusedFiles = audit.unusedFiles) ∧
      (audit.traced disk).1.unusedBindings = audit.unusedBindings ∧
      (audit.traced disk).1.unusedTargets = audit.unusedTargets := by
  unfold traced
  split
  · rename_i traces
    exact ⟨rfl, fun skips => absurd traces (by simp [skips]), rfl, rfl⟩
  · exact ⟨rfl, fun _ => rfl, rfl, rfl⟩

theorem analyze_judges (ended : (audit.analyze disk).outcome = .ok verdict) :
    Judges audit.mode audit (audit.analyze disk).audit verdict := by
  obtain ⟨mode, files, bindings, targets⟩ := traced_keeps disk audit
  rw [analyze_eq] at ended ⊢
  split at ended
  · rename_i checks
    obtain ⟨clean, kept, untouched⟩ := judgeImports_judges ended
    rw [if_pos checks]
    exact ⟨kept.trans mode, clean, fun skips => untouched.trans (files skips),
      fun skips => absurd checks (by simp [skips])⟩
  · rename_i skips
    rw [if_neg skips]
    exact ⟨mode, (Except.ok.inj ended).symm, files, fun _ => ⟨bindings, targets⟩⟩

theorem run_judges (ended : (audit.run disk modeName).outcome = .ok verdict) :
    ∃ mode, Mode.ofName? modeName = some mode ∧
      Judges mode audit (audit.run disk modeName).audit verdict := by
  unfold run runWith at ended ⊢
  split at ended
  · cases ended
  · rename_i mode known
    refine ⟨mode, known, ?_⟩
    dsimp only at ended ⊢
    split at ended
    · cases ended
    · have judged := analyze_judges ended
      exact ⟨judged.mode_eq, judged.verdict_eq, judged.files, judged.imports⟩

/-- A run that ends gives the verdict that nothing is unused exactly where its listing lists nothing
and the analyses that its mode leaves out have left no finding behind. -/
theorem run_clean_iff (disk : Disk) (modeName : String) (audit : Audit) (verdict : Bool)
    (ended : (audit.run disk modeName).outcome = .ok verdict) :
    let next := (audit.run disk modeName).audit
    next.mode.name = modeName ∧
    (verdict = true ↔ next.listing = next.mode.emptyListing ∧
      (next.mode.tracesFiles = false → audit.unusedFiles = []) ∧
      (next.mode.checksImports = false →
        audit.unusedBindings = [] ∧ audit.unusedTargets = [])) := by
  intro next
  obtain ⟨mode, known, judged⟩ := run_judges ended
  have files := judged.files
  have imports := judged.imports
  rw [← judged.mode_eq] at files imports
  refine ⟨(congrArg Mode.name judged.mode_eq).trans (Mode.name_of_ofName? known), ?_⟩
  rw [judged.verdict_eq, isClean_iff, listing_eq_iff]
  constructor
  · rintro ⟨noFiles, noBindings, noTargets⟩
    refine ⟨⟨fun _ => noFiles, fun _ => ⟨noBindings, noTargets⟩⟩, fun skips => ?_, fun skips => ?_⟩
    · exact (files skips).symm.trans noFiles
    · exact ⟨(imports skips).1.symm.trans noBindings, (imports skips).2.symm.trans noTargets⟩
  · rintro ⟨⟨traced, checked⟩, noFiles, noImports⟩
    constructor
    · cases traces : next.mode.tracesFiles with
      | true => exact traced traces
      | false => exact (files traces).trans (noFiles traces)
    · cases checks : next.mode.checksImports with
      | true => exact checked checks
      | false =>
          obtain ⟨bindings, targets⟩ := imports checks
          exact ⟨bindings.trans (noImports checks).1, targets.trans (noImports checks).2⟩

theorem selfImport_clean :
    let run := (start selfImportSettings).run selfImport "files"
    run.outcome = .ok true ∧ run.audit.listing = "UNUSED FILES:" := by
  intro run
  have ended : run.outcome = .ok true := by decide +kernel
  exact ⟨ended, ((run_clean_iff selfImport "files" _ true ended).2.mp rfl).1⟩

/-- After a run in all modes, a run about files lists nothing and yet does not call the tree clean:
the unused import that the first run has found is still on record. -/
theorem selfImport_unclean :
    let audit := ((start selfImportSettings).run selfImport "all").audit
    let run := audit.run selfImport "files"
    run.outcome = .ok false ∧ run.audit.listing = run.audit.mode.emptyListing := by
  decide +kernel

end Audit
end ImportAudit
