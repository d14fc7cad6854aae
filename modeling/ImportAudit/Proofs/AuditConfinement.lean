import ImportAudit.Proofs.Audit
import ImportAudit.Proofs.Confinement

/-! An audit stays inside its root. Every path that it holds is written without `..` and starts with
the components of the root; so no two of its paths lead to one file, and no run depends on what files
outside the root hold. -/
namespace ImportAudit

/-- Whatever a survey of an inside folder lists is inside. -/
theorem Survey.isInside_of_scanned {rules : Rules} {folder file root : Path} {entries : Entries}
    (inside : folder.IsInside root) {entry : String × List Event}
    (listed : entry ∈ byName rules folder entries) (scanned : .scanned file ∈ entry.2) :
    file.IsInside root := by
  induction entries generalizing folder entry with
  | nil => cases listed
  | file name bytes others ih =>
      rcases List.mem_cons.mp listed with rfl | listed
      · dsimp only at scanned
        split at scanned
        · obtain rfl : file = folder.child name := by simpa using scanned
          exact inside.child name
        · cases scanned
      · exact ih inside listed scanned
  | folder name content others inner ih =>
      rcases List.mem_cons.mp listed with rfl | listed
      · dsimp only at scanned
        split at scanned
        · simp at scanned
        · obtain ⟨entry, listed, scanned⟩ := mem_inNameOrder.mp scanned
          exact inner (inside.child name) listed scanned
      · exact ih inside listed scanned

theorem Survey.isInside_of_mem_files {rules : Rules} {disk : Disk} {root file : Path}
    {events : List Event} (resolved : root.IsResolved)
    (surveyed : Survey.events rules disk root = .ok events) (member : file ∈ files events) :
    file.IsInside root := by
  unfold Survey.events at surveyed
  cases content : disk.list root with
  | error fault =>
      rw [content] at surveyed
      cases surveyed
  | ok entries =>
      rw [content] at surveyed
      obtain rfl := Except.ok.inj surveyed
      obtain ⟨entry, listed, scanned⟩ := mem_inNameOrder.mp (mem_files.mp member)
      exact isInside_of_scanned (.self resolved) listed scanned

theorem Settings.entryPoints_down (settings : Settings) :
    ∀ entry ∈ settings.entryPoints, ".." ∉ entry.parts := by
  intro entry listed
  obtain ⟨text, -, rfl⟩ := List.mem_map.mp listed
  apply Resolution.parent_not_mem_normalize
  unfold Path.join
  split
  · exact settings.root_anchor_ne
  · assumption

theorem Survey.events_congr {one other : Disk} {root : Path}
    (agree : Disk.AgreeWithin root one other) (resolved : root.IsResolved) (rules : Rules) :
    Survey.events rules other root = Survey.events rules one root := by
  simp only [Survey.events, Disk.list, Disk.locate, agree.node root (.self resolved)]

namespace Audit

variable {disk one other : Disk} {settings : Settings} {audit : Audit}

/-- All paths that an audit holds: the files surveyed and reached, the sources read and what they
link to, and what its findings are about. -/
def paths (audit : Audit) : List Path :=
  audit.files ++ audit.reachable ++
    (audit.codebase.sources ++ audit.sources).flatMap
      (fun source => source.path :: source.links.map Link.target) ++
    audit.unusedFiles ++
    audit.unusedBindings.flatMap (fun finding => [finding.file, finding.target]) ++
    audit.unusedTargets.flatMap (fun finding => [finding.file, finding.target])

/-- An audit whose paths are all inside the root. -/
structure IsConfined (settings : Settings) (audit : Audit) : Prop where
  settings_eq : audit.settings = settings
  root_eq : audit.codebase.root = settings.root
  codebase : audit.codebase.IsConfined
  source : ∀ source ∈ audit.sources, source.IsConfined settings.root
  file : ∀ file ∈ audit.files, file.IsInside settings.root
  reached : ∀ path ∈ audit.reachable, path.IsInside settings.root
  unusedFile : ∀ file ∈ audit.unusedFiles, file.IsInside settings.root
  unusedBinding : ∀ finding ∈ audit.unusedBindings,
    finding.file.IsInside settings.root ∧ finding.target.IsInside settings.root
  unusedTarget : ∀ finding ∈ audit.unusedTargets,
    finding.file.IsInside settings.root ∧ finding.target.IsInside settings.root

namespace IsConfined

theorem start (plain : ∀ extension ∈ settings.extensions, '/' ∉ extension.toList) :
    (start settings).IsConfined settings where
  settings_eq := rfl
  root_eq := rfl
  codebase := .empty settings.resolved plain
  source := by simp [Audit.start]
  file := by simp [Audit.start]
  reached := by simp [Audit.start]
  unusedFile := by simp [Audit.start]
  unusedBinding := by simp [Audit.start]
  unusedTarget := by simp [Audit.start]

theorem readFiles {files : List Path} (confined : audit.IsConfined settings) (disk : Disk)
    (inside : ∀ file ∈ files, file.IsInside settings.root) :
    (audit.readFiles disk files).1.IsConfined settings := by
  rw [← confined.root_eq] at inside
  obtain ⟨codebase, sources⟩ := confined.codebase.loadAll disk inside
  rw [confined.root_eq] at inside sources
  have root := (Codebase.Loads.loadAll disk files audit.codebase).settings.1
  exact { confined with
    root_eq := root.trans confined.root_eq
    codebase := codebase
    source := sources
    file := inside }

theorem traced (confined : audit.IsConfined settings) (disk : Disk) :
    (audit.traced disk).1.IsConfined settings := by
  unfold Audit.traced
  split
  · obtain ⟨inside, codebase⟩ := confined.codebase.reach disk
      (confined.settings_eq ▸ settings.entryPoints_down)
    have root := (Codebase.Loads.reach disk audit.settings.entryPoints audit.codebase).settings.1
    exact { confined with
      root_eq := root.trans confined.root_eq
      codebase := codebase
      reached := confined.root_eq ▸ inside
      unusedFile := fun file member => confined.file file (List.mem_filter.mp member).1 }
  · exact confined

theorem judgeImports (confined : audit.IsConfined settings) (disk : Disk) :
    (audit.judgeImports disk).audit.IsConfined settings := by
  obtain ⟨check, checked, ⟨root, codebase⟩, bindings, targets⟩ :=
    checkImports_confined disk confined.codebase (confined.root_eq ▸ confined.source)
  unfold Audit.judgeImports
  rw [checked]
  exact { confined with
    root_eq := root.trans confined.root_eq
    codebase := codebase
    unusedBinding := confined.root_eq ▸ bindings
    unusedTarget := confined.root_eq ▸ targets }

theorem analyze (confined : audit.IsConfined settings) (disk : Disk) :
    (audit.analyze disk).audit.IsConfined settings := by
  rw [analyze_eq]
  split
  · exact (confined.traced disk).judgeImports disk
  · exact confined.traced disk

theorem runWith (confined : audit.IsConfined settings) (disk : Disk) (mode : Mode)
    {analysis : Audit → Run}
    (keeps : ∀ ready : Audit, ready.IsConfined settings →
      (analysis ready).audit.IsConfined settings) :
    (audit.runWith disk mode analysis).audit.IsConfined settings := by
  have begun : { audit with mode }.IsConfined settings := { confined with }
  unfold Audit.runWith
  dsimp only
  split
  · exact begun
  · rename_i events surveyed
    rw [confined.settings_eq] at surveyed
    exact keeps _ (begun.readFiles disk fun file =>
      Survey.isInside_of_mem_files settings.resolved surveyed)

/-- A run, whether it succeeds or not, leaves an audit inside the root. -/
theorem run (confined : audit.IsConfined settings) (disk : Disk) (modeName : String) :
    (audit.run disk modeName).audit.IsConfined settings := by
  unfold Audit.run
  split
  · exact confined
  · exact confined.runWith disk _ fun ready within => within.analyze disk

theorem isInside_of_mem_paths (confined : audit.IsConfined settings) :
    ∀ path ∈ audit.paths, path.IsInside settings.root := by
  have source : ∀ source ∈ audit.codebase.sources ++ audit.sources,
      source.IsConfined settings.root := by
    intro source member
    rcases List.mem_append.mp member with read | listed
    · exact confined.root_eq ▸ confined.codebase.source source read
    · exact confined.source source listed
  intro path member
  simp only [paths, List.mem_append] at member
  rcases member with ((((file | reached) | read) | unused) | binding) | target
  · exact confined.file path file
  · exact confined.reached path reached
  · obtain ⟨origin, listed, member⟩ := List.mem_flatMap.mp read
    rcases List.mem_cons.mp member with rfl | linked
    · exact (source origin listed).path
    · obtain ⟨link, listedLink, rfl⟩ := List.mem_map.mp linked
      exact (source origin listed).target link listedLink
  · exact confined.unusedFile path unused
  · obtain ⟨finding, listed, member⟩ := List.mem_flatMap.mp binding
    obtain ⟨file, leads⟩ := confined.unusedBinding finding listed
    rcases List.mem_pair.mp member with rfl | rfl
    · exact file
    · exact leads
  · obtain ⟨finding, listed, member⟩ := List.mem_flatMap.mp target
    obtain ⟨file, leads⟩ := confined.unusedTarget finding listed
    rcases List.mem_pair.mp member with rfl | rfl
    · exact file
    · exact leads

end IsConfined

section Agreement

variable (agree : Disk.AgreeWithin settings.root one other) (confined : audit.IsConfined settings)
include agree confined

theorem readFiles_congr {files : List Path}
    (inside : ∀ file ∈ files, file.IsInside settings.root) :
    audit.readFiles other files = audit.readFiles one files := by
  rw [← confined.root_eq] at agree inside
  rw [readFiles, readFiles, Codebase.loadAll_congr agree confined.codebase inside]

theorem traced_congr : audit.traced other = audit.traced one := by
  have down : ∀ entry ∈ audit.settings.entryPoints, ".." ∉ entry.parts :=
    audit.settings.entryPoints_down
  rw [← confined.root_eq] at agree
  rw [traced, traced, traceFiles, traceFiles,
    Codebase.reach_congr agree confined.codebase down]

theorem judgeImports_congr : audit.judgeImports other = audit.judgeImports one := by
  have sources := confined.source
  rw [← confined.root_eq] at agree sources
  rw [judgeImports, judgeImports, checkImports_congr agree confined.codebase sources]

theorem analyze_congr : audit.analyze other = audit.analyze one := by
  rw [analyze_eq, analyze_eq, traced_congr agree confined,
    judgeImports_congr agree (confined.traced one)]

theorem runWith_congr (mode : Mode) {analysis again : Audit → Run}
    (same : ∀ ready : Audit, ready.IsConfined settings → again ready = analysis ready) :
    audit.runWith other mode again = audit.runWith one mode analysis := by
  obtain rfl := confined.settings_eq
  have begun : { audit with mode }.IsConfined audit.settings := { confined with }
  unfold runWith
  dsimp only
  rw [Survey.events_congr agree audit.settings.resolved]
  split
  · rfl
  · rename_i events surveyed
    have inside : ∀ file ∈ Survey.files events, file.IsInside audit.settings.root := fun file =>
      Survey.isInside_of_mem_files audit.settings.resolved surveyed
    rw [readFiles_congr agree begun inside, same _ (begun.readFiles one inside)]

/-- What files outside the root hold makes no difference to a run. -/
theorem run_congr (modeName : String) : audit.run other modeName = audit.run one modeName := by
  unfold run
  split
  · rfl
  · exact runWith_congr agree confined _ fun ready => analyze_congr agree

end Agreement

/-- The audits that runs can lead to: each run has a mode of its own, known or not, and finds the disk
as it is at its time. -/
inductive Arises (settings : Settings) : Audit → Prop
  | start : Arises settings (start settings)
  | run {audit : Audit} (before : Arises settings audit) (disk : Disk) (modeName : String) :
      Arises settings (audit.run disk modeName).audit

theorem Arises.isConfined (plain : ∀ extension ∈ settings.extensions, '/' ∉ extension.toList)
    (arises : Arises settings audit) : audit.IsConfined settings := by
  induction arises with
  | start => exact .start plain
  | run _ disk modeName ih => exact ih.run disk modeName

/-- However the disk changes between the runs, all paths of an audit are spelled from the top without
`.` and `..` and begin with the root. Different keys of its codebase are different files: writing to
one leaves the other. And no run tells apart disks that differ in what files outside the root hold. -/
theorem Arises.stays_inside (settings : Settings) (audit : Audit)
    (plain : ∀ extension ∈ settings.extensions, '/' ∉ extension.toList)
    (arises : Arises settings audit) :
    (∀ path ∈ audit.paths, path.anchor = .root ∧ "." ∉ path.parts ∧ ".." ∉ path.parts ∧
      settings.root.parts <+: path.parts) ∧
    (∀ path ∈ audit.codebase.paths, ∀ other ∈ audit.codebase.paths, path ≠ other →
      ∀ (disk : Disk) (bytes : Text.Utf8.Bytes),
        disk.isFile path = true → disk.isFile other = true →
        (disk.put path bytes).read path = .ok bytes ∧
          (disk.put path bytes).read other = disk.read other) ∧
    ∀ one other : Disk, Disk.AgreeWithin settings.root one other → ∀ modeName,
      audit.run other modeName = audit.run one modeName := by
  have confined := arises.isConfined plain
  refine ⟨fun path member => (confined.isInside_of_mem_paths path member).spelled, ?_, ?_⟩
  · intro path member other listed apart disk bytes file otherFile
    have key : ∀ path ∈ audit.codebase.paths, path.IsResolved := by
      intro path member
      obtain ⟨source, read, rfl⟩ := List.mem_map.mp member
      exact (confined.codebase.source source read).path.resolved
    obtain ⟨anchor, down⟩ := key path member
    obtain ⟨otherAnchor, otherDown⟩ := key other listed
    have aside : ¬ other.parts <+: path.parts := by
      intro onWay
      have folder := Disk.not_isFile_on_way file otherDown onWay fun parts =>
        apart (Path.ext (anchor.trans otherAnchor.symm) parts.symm)
      simp [otherFile] at folder
    refine ⟨Disk.read_of_node (Disk.node_put_self down file bytes), ?_⟩
    rw [Disk.read, Disk.readAs, Disk.locate, Disk.node_put_other down file otherDown aside]
    rfl
  · intro one other agree modeName
    exact run_congr agree confined modeName

/-- A file in a folder that imports one outside of it. -/
def climbing : Disk :=
  ((default : Disk).put (.parse "/keys.ts") (Text.Utf8.encode "export const key = 1".toList)).put
    (.parse "/src/a.ts") (Text.Utf8.encode "import {key} from '../keys'".toList)

/-- Audits the folder, from an entry point in it and one outside. -/
def climbingSettings : Settings :=
  { root := .parse "/src"
    resolved := ⟨rfl, by decide⟩
    entries := ["a.ts", "../keys.ts"]
    extensions := [".ts"]
    ignored := [] }

theorem climbing_stays_inside :
    let audit := ((start climbingSettings).run climbing "all").audit
    audit.codebase.paths = [.parse "/src/a.ts"] ∧
      (∀ path ∈ audit.paths, path.anchor = .root ∧ "." ∉ path.parts ∧ ".." ∉ path.parts ∧
        climbingSettings.root.parts <+: path.parts) ∧
      ∀ bytes, audit.run (climbing.put (.parse "/keys.ts") bytes) "all" =
        audit.run climbing "all" := by
  intro audit
  have plain : ∀ extension ∈ climbingSettings.extensions, '/' ∉ extension.toList := by decide
  obtain ⟨spelled, -, same⟩ :=
    Arises.stays_inside climbingSettings audit plain (.run .start climbing "all")
  refine ⟨by decide +kernel, spelled, fun bytes => same _ _ ?_ "all"⟩
  exact .put ⟨rfl, by decide⟩ (by decide +kernel) (by decide +kernel) bytes

end Audit
end ImportAudit
