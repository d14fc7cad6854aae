import ImportAudit.Proofs.Verdict

/-! Runs that fail. A run stops early only over its mode or over its survey, before anything is read, so
an audit keeps all it has read and found. The mode is the one thing that a failed survey leaves changed,
and with it the choice of the findings that are listed. -/
namespace ImportAudit

namespace Text

theorem exists_joinLines_cons (line : String) (lines : List String) :
    ∃ rest, joinLines (line :: lines) = line ++ rest := by
  cases lines with
  | nil => exact ⟨"", String.append_empty.symm⟩
  | cons next lines => exact ⟨"\n" ++ joinLines (next :: lines), String.append_assoc⟩

end Text

namespace Finding

theorem filesListing_head (root : Path) (unused : List Path) :
    (filesListing root unused).toList.head? = some 'U' := by
  obtain ⟨rest, same⟩ := Text.exists_joinLines_cons "UNUSED FILES:" (unused.map root.renderFrom)
  have listed : filesListing root unused = "UNUSED FILES:" ++ rest := same
  rw [listed, String.toList_append, List.head?_append_of_ne_nil _ (by decide)]
  decide

theorem importsListing_head (root : Path) (bindings : List UnusedBinding)
    (targets : List UnusedTarget) :
    (importsListing root bindings targets).toList.head? = some '\n' := by
  have listed : ∃ lines, importsListing root bindings targets = "" ++ "\n" ++ lines := ⟨_, rfl⟩
  obtain ⟨lines, same⟩ := listed
  rw [same, String.toList_append, List.head?_append_of_ne_nil _ (by decide)]
  decide

end Finding

namespace Audit

variable {disk : Disk} {settings : Settings} {audit : Audit} {modeName : String} {fault : Fault}

/-- What is listed tells the mode. -/
theorem listing_mode_injective (audit : Audit) {mode mode' : Mode}
    (same : { audit with mode }.listing = { audit with mode := mode' }.listing) : mode = mode' := by
  let root := audit.settings.root
  let files := Finding.filesListing root audit.unusedFiles
  let imports := Finding.importsListing root audit.unusedBindings audit.unusedTargets
  have filesHead : files.toList.head? = some 'U' := Finding.filesListing_head root audit.unusedFiles
  have importsHead : imports.toList.head? = some '\n' :=
    Finding.importsListing_head root audit.unusedBindings audit.unusedTargets
  have bothHead : (files ++ "\n" ++ imports).toList.head? = some 'U' := by
    rw [String.toList_append, String.toList_append, List.append_assoc, List.head?_append, filesHead]
    rfl
  -- Both sections are more than the first of them, and the second alone starts with an empty line.
  have more : files ≠ files ++ "\n" ++ imports := by
    intro same
    have lengths := congrArg String.length same
    have feed : "\n".length = 1 := rfl
    rw [String.length_append, String.length_append] at lengths
    omega
  have apart : ∀ {first second : String}, first.toList.head? = some 'U' →
      second.toList.head? = some '\n' → first ≠ second := by
    rintro first second upper lower rfl
    rw [upper] at lower
    exact absurd lower (by decide)
  cases mode with
  | files =>
      cases mode' with
      | files => rfl
      | imports => exact absurd same (apart filesHead importsHead)
      | all => exact absurd same more
  | imports =>
      cases mode' with
      | files => exact absurd same.symm (apart filesHead importsHead)
      | imports => rfl
      | all => exact absurd same.symm (apart bothHead importsHead)
  | all =>
      cases mode' with
      | files => exact absurd same.symm more
      | imports => exact absurd same (apart bothHead importsHead)
      | all => rfl

/-- The mode of an audit once a run in a mode was asked for: an unknown name changes nothing. -/
def modeAfter (modeName : String) (audit : Audit) : Mode := (Mode.ofName? modeName).getD audit.mode

/-- The points at which a run can fail: before anything is set, or when only the mode is. -/
theorem failed_run_sets_mode (genuine : audit.IsGenuine settings)
    (failed : (audit.run disk modeName).outcome = .error fault) :
    (audit.run disk modeName).audit = { audit with mode := audit.modeAfter modeName } ∧
      (Mode.ofName? modeName = none ∨ disk.isFolder settings.root = false) := by
  have ends := (genuine.run disk modeName).2
  rw [failed] at ends
  unfold run at failed ⊢
  unfold modeAfter
  cases known : Mode.ofName? modeName with
  | none => exact ⟨rfl, .inl rfl⟩
  | some mode =>
      rw [known] at ends failed
      cases ends with
      | noFolder _ fault absent =>
          refine ⟨?_, .inr absent⟩
          unfold runWith at failed ⊢
          dsimp only at failed ⊢
          split
          · rfl
          · rename_i events surveyed
            have folder := Survey.isFolder_of_events surveyed
            rw [genuine.settings_eq, absent] at folder
            cases folder

/-- A run fails only where its mode is unknown or the root is no folder, and whatever has happened before,
it leaves all files, sources, reached files and findings as they were, and so the report. The mode is
changed where it is known and another one, and exactly then the listing is another one, too. -/
theorem Arises.failed_run_keeps (settings : Settings) (audit : Audit)
    (arises : Arises settings audit) (disk : Disk) (modeName : String) (fault : Fault)
    (failed : (audit.run disk modeName).outcome = .error fault) :
    let next := (audit.run disk modeName).audit
    next = { audit with mode := audit.modeAfter modeName } ∧ next.report = audit.report ∧
      (next.listing = audit.listing ↔ audit.modeAfter modeName = audit.mode) ∧
      (Mode.ofName? modeName = none ∨ disk.isFolder settings.root = false) := by
  intro next
  obtain ⟨kept, reason⟩ := failed_run_sets_mode arises.isGenuine failed
  have kept : next = { audit with mode := audit.modeAfter modeName } := kept
  refine ⟨kept, ?_, ?_, reason⟩
  · rw [kept]
    rfl
  · rw [kept]
    constructor
    · exact audit.listing_mode_injective
    · intro same
      rw [same]

/-- A tree with one file, which imports from itself a name it does not use. -/
def ownImport : Disk :=
  (default : Disk).put (.parse "/src/a.ts") (Text.Utf8.encode "import {y} from './a'".toList)

theorem source_isResolved : (Path.parse "/src").IsResolved := ⟨rfl, by decide⟩

def ownImportSettings : Settings :=
  { root := .parse "/src"
    resolved := source_isResolved
    entries := ["a.ts"]
    extensions := [".ts"]
    ignored := [] }

/-- After a run about imports the root becomes a file, and a run about the same fails. -/
theorem ownImport_failed_run_keeps :
    let audit := ((start ownImportSettings).run ownImport "imports").audit
    let replaced := (default : Disk).put (.parse "/src") []
    let run := audit.run replaced "imports"
    run.outcome = .error (.disk (.notFolder (.parse "/src"))) ∧
      audit.unusedBindings.map UnusedBinding.line = [1] ∧
      run.audit = audit ∧ run.audit.listing = audit.listing := by
  intro audit replaced run
  have failed : run.outcome = .error (.disk (.notFolder (.parse "/src"))) := by decide +kernel
  have mode : audit.modeAfter "imports" = audit.mode := by decide +kernel
  obtain ⟨kept, -, listing, -⟩ := Arises.failed_run_keeps ownImportSettings audit
    (.run .start ownImport "imports") replaced "imports" _ failed
  refine ⟨failed, by decide +kernel, ?_, listing.mpr mode⟩
  rw [kept, mode]

/-- After a run about files the tree is removed, and a run about everything fails. From then on the listing
says that there are no unused imports, although no run has looked for them and there is one. -/
theorem ownImport_relisted :
    let audit := ((start ownImportSettings).run ownImport "files").audit
    let run := audit.run default "all"
    run.outcome = .error (.disk (.missing (.parse "/src"))) ∧
      audit.mode = .files ∧ run.audit.mode = .all ∧
      audit.listing = Mode.files.emptyListing ∧ run.audit.listing = Mode.all.emptyListing ∧
      run.audit.listing ≠ audit.listing ∧
      ((start ownImportSettings).run ownImport "all").audit.unusedBindings.map UnusedBinding.line =
        [1] := by
  decide +kernel

end Audit
end ImportAudit
