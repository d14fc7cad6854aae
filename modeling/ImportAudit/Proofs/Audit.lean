import ImportAudit.Audit
import ImportAudit.Proofs.ImportCheck
import ImportAudit.Proofs.Reach
import ImportAudit.Proofs.Survey

/-! Repeated runs. On a disk that does not change, there is one picture to be found. Every run puts
the parts that its mode is about into the audit and leaves the others, so that after any history of
runs each part is as in the picture or, if no run was about it, still empty. -/
namespace ImportAudit

namespace Settings

/-- The codebase of a tree before anything is read. -/
def unread (settings : Settings) : Codebase :=
  .empty settings.root settings.extensions settings.root_anchor_ne

/-- A chain of links leads to the file from an entry point, where the links are those of the files
on disk and all of it lies within the root. -/
inductive Connects (disk : Disk) (settings : Settings) : Path → Prop
  | entry {path : Path} (listed : path ∈ settings.entryPoints) (file : disk.isFile path = true)
      (within : path.isWithin settings.root = true) : Connects disk settings path
  | link {path : Path} {bytes : Text.Utf8.Bytes} {link : Link} (chain : Connects disk settings path)
      (content : disk.node path = .ok (.file bytes))
      (listed : link ∈ (Source.parse disk settings.root settings.extensions path bytes).links)
      (within : link.target.isWithin settings.root = true) : Connects disk settings link.target

variable {disk : Disk} {settings : Settings}

theorem mem_reach_iff_connects {path : Path} :
    path ∈ (settings.unread.reach disk settings.entryPoints).value ↔
      settings.Connects disk path := by
  have least := Codebase.reach_least disk settings.entryPoints settings.unread
  have onDisk := (Codebase.Mirrors.empty disk settings.extensions settings.root_anchor_ne).sourceAt?
  constructor
  · have holds : Codebase.Holds disk settings.entryPoints settings.unread
        {path | settings.Connects disk path} := by
      constructor
      · intro entry listed file within
        exact .entry listed file within
      · intro path chain source found link listed within
        rw [unread, onDisk, Codebase.onDisk?] at found
        split at found
        · cases found
          exact .link chain ‹_› listed within
        · cases found
    intro reached
    exact least.2 holds reached
  · intro chain
    induction chain with
    | entry listed file within => exact least.1.entry _ listed file within
    | link chain content listed within ih =>
        refine least.1.link _ ih _ ?_ _ listed within
        rw [unread, onDisk, Codebase.onDisk?, content]
        rfl

instance : DecidablePred (settings.Connects disk) := fun _ =>
  decidable_of_iff _ mem_reach_iff_connects

end Settings

namespace Mode

theorem any_tracesFiles {modes : List Mode} :
    modes.any tracesFiles = true ↔ files ∈ modes ∨ all ∈ modes := by
  rw [List.any_eq_true]
  constructor
  · rintro ⟨mode, member, traces⟩
    cases mode with
    | files => exact Or.inl member
    | imports => cases traces
    | all => exact Or.inr member
  · rintro (member | member)
    · exact ⟨_, member, rfl⟩
    · exact ⟨_, member, rfl⟩

theorem any_checksImports {modes : List Mode} :
    modes.any checksImports = true ↔ imports ∈ modes ∨ all ∈ modes := by
  rw [List.any_eq_true]
  constructor
  · rintro ⟨mode, member, checks⟩
    cases mode with
    | files => cases checks
    | imports => exact Or.inl member
    | all => exact Or.inr member
  · rintro (member | member)
    · exact ⟨_, member, rfl⟩
    · exact ⟨_, member, rfl⟩

theorem ofName?_name (mode : Mode) : ofName? mode.name = some mode := by
  cases mode <;> decide

end Mode

/-- What there is to find in a tree. -/
structure Picture where
  files : List Path
  sources : List Source
  reachable : List Path
  bindings : List UnusedBinding
  targets : List UnusedTarget

/-- The picture of a tree on disk: its survey, the sources there, and what the analyses find when
nothing was read before. -/
structure Picture.Shows (disk : Disk) (settings : Settings) (picture : Picture) : Prop where
  surveyed : ∃ events, Survey.events ⟨settings.extensions, settings.ignored⟩ disk settings.root =
    .ok events ∧ picture.files = Survey.files events
  sources : picture.sources = picture.files.filterMap (settings.unread.onDisk? disk)
  paths : picture.sources.map Source.path = picture.files
  reachable : picture.reachable = (settings.unread.reach disk settings.entryPoints).value
  checked : ∃ check, checkImports disk picture.sources settings.unread = .ok check ∧
    check.bindings = picture.bindings ∧ check.targets = picture.targets

namespace Picture

variable {disk : Disk} {settings : Settings} {picture : Picture}

theorem exists_shows (folder : disk.isFolder settings.root = true) :
    ∃ picture : Picture, picture.Shows disk settings := by
  obtain ⟨events, surveyed, there⟩ := Survey.events_of_isFolder
    ⟨settings.extensions, settings.ignored⟩ settings.resolved.2 folder
  have mirrors := Codebase.Mirrors.empty disk settings.extensions settings.root_anchor_ne
  have sound : ∀ source ∈ (Survey.files events).filterMap (settings.unread.onDisk? disk),
      source.IsSound := Codebase.forall_onDisk?_isSound
  obtain ⟨check, -, checked, -⟩ := checkImports_of_mirrors sound mirrors mirrors
  refine ⟨⟨Survey.files events, (Survey.files events).filterMap (settings.unread.onDisk? disk),
    (settings.unread.reach disk settings.entryPoints).value, check.bindings, check.targets⟩,
    ⟨events, surveyed, rfl⟩, rfl, ?_, rfl, check, checked, rfl, rfl⟩
  exact Codebase.map_path_onDisk? there

end Picture

namespace Audit

variable {disk : Disk} {settings : Settings} {picture : Picture} {audit : Audit}

/-- An audit of the tree that has read nothing but what is on disk. -/
structure Tracks (disk : Disk) (settings : Settings) (audit : Audit) : Prop where
  settings_eq : audit.settings = settings
  mirrors : audit.codebase.Mirrors disk settings.root settings.extensions

/-- The audit after a run in a mode, which puts into it what the mode is about. -/
def record (picture : Picture) (mode : Mode) (codebase : Codebase) (audit : Audit) : Audit :=
  { audit with
    mode
    codebase
    files := picture.files
    sources := picture.sources
    reachable := if mode.tracesFiles then picture.reachable else audit.reachable
    unusedFiles :=
      if mode.tracesFiles then ImportAudit.unusedFiles picture.files picture.reachable
      else audit.unusedFiles
    unusedBindings := if mode.checksImports then picture.bindings else audit.unusedBindings
    unusedTargets := if mode.checksImports then picture.targets else audit.unusedTargets }

theorem readFiles_eq (shows : picture.Shows disk settings) (tracks : audit.Tracks disk settings) :
    ∃ codebase : Codebase, codebase.Mirrors disk settings.root settings.extensions ∧
      (audit.readFiles disk picture.files).1 =
        { audit with files := picture.files, sources := picture.sources, codebase } := by
  refine ⟨_, tracks.mirrors.loadAll picture.files, ?_⟩
  have read : audit.codebase.sourceAt? disk = settings.unread.onDisk? disk :=
    funext tracks.mirrors.sourceAt?
  simp only [readFiles, Codebase.loadAll_value, read, shows.sources]

theorem traceFiles_eq (shows : picture.Shows disk settings) (tracks : audit.Tracks disk settings)
    (files : audit.files = picture.files) :
    ∃ codebase : Codebase, codebase.Mirrors disk settings.root settings.extensions ∧
      (audit.traceFiles disk).1 =
        { audit with
          codebase
          reachable := picture.reachable
          unusedFiles := ImportAudit.unusedFiles picture.files picture.reachable } := by
  refine ⟨_, tracks.mirrors.reach settings.entryPoints, ?_⟩
  have agrees := (Codebase.Mirrors.empty disk settings.extensions settings.root_anchor_ne).agrees tracks.mirrors
  have reached : (audit.codebase.reach disk settings.entryPoints).value = picture.reachable := by
    rw [shows.reachable]
    exact Codebase.reach_value_of_agrees agrees settings.entryPoints
  simp only [traceFiles, tracks.settings_eq, reached, files]

theorem judgeImports_eq (shows : picture.Shows disk settings) (tracks : audit.Tracks disk settings)
    (sources : audit.sources = picture.sources) :
    ∃ codebase : Codebase, codebase.Mirrors disk settings.root settings.extensions ∧
      (audit.judgeImports disk).outcome = .ok (audit.judgeImports disk).audit.isClean ∧
      (audit.judgeImports disk).audit =
        { audit with
          codebase
          unusedBindings := picture.bindings
          unusedTargets := picture.targets } := by
  have sound : ∀ source ∈ picture.sources, source.IsSound := by
    rw [shows.sources]
    exact Codebase.forall_onDisk?_isSound
  obtain ⟨check, found, bindings, targets⟩ := shows.checked
  obtain ⟨own, fresh, checked, again, sameBindings, sameTargets, mirrors⟩ :=
    checkImports_of_mirrors sound tracks.mirrors
      (.empty disk settings.extensions settings.root_anchor_ne)
  -- The check in the picture is the one over the codebase that has read nothing.
  obtain rfl : fresh = check := Except.ok.inj (again.symm.trans found)
  refine ⟨own.codebase, mirrors, ?_, ?_⟩
  · simp only [judgeImports, sources, checked]
  · simp only [judgeImports, sources, checked, sameBindings, sameTargets, bindings, targets]

def traced (disk : Disk) (audit : Audit) : Audit × List Line :=
  if audit.mode.tracesFiles then audit.traceFiles disk else (audit, [])

theorem analyze_eq (disk : Disk) (audit : Audit) :
    audit.analyze disk =
      if audit.mode.checksImports then
        { (audit.traced disk).1.judgeImports disk with
          lines := (audit.traced disk).2 ++ ((audit.traced disk).1.judgeImports disk).lines }
      else ⟨.ok (audit.traced disk).1.isClean, (audit.traced disk).1, (audit.traced disk).2⟩ := rfl

theorem traced_eq (shows : picture.Shows disk settings) (tracks : audit.Tracks disk settings)
    (files : audit.files = picture.files) :
    ∃ codebase : Codebase, codebase.Mirrors disk settings.root settings.extensions ∧
      (audit.traced disk).1 =
        { audit with
          codebase
          reachable := if audit.mode.tracesFiles then picture.reachable else audit.reachable
          unusedFiles :=
            if audit.mode.tracesFiles then ImportAudit.unusedFiles picture.files picture.reachable
            else audit.unusedFiles } := by
  unfold traced
  cases audit.mode.tracesFiles with
  | false => exact ⟨audit.codebase, tracks.mirrors, rfl⟩
  | true => exact traceFiles_eq shows tracks files

theorem analyze_records (shows : picture.Shows disk settings) (tracks : audit.Tracks disk settings)
    (files : audit.files = picture.files) (sources : audit.sources = picture.sources) :
    ∃ codebase : Codebase, codebase.Mirrors disk settings.root settings.extensions ∧
      (audit.analyze disk).outcome = .ok (audit.analyze disk).audit.isClean ∧
      (audit.analyze disk).audit = audit.record picture audit.mode codebase := by
  obtain ⟨codebase, mirrors, found⟩ := traced_eq shows tracks files
  rw [analyze_eq]
  cases checks : audit.mode.checksImports with
  | false =>
      refine ⟨codebase, mirrors, rfl, found.trans ?_⟩
      simp [record, checks, ← files, ← sources]
  | true =>
      have tracksOn : (audit.traced disk).1.Tracks disk settings := by
        rw [found]
        exact ⟨tracks.settings_eq, mirrors⟩
      have kept : (audit.traced disk).1.sources = picture.sources := by
        rw [found]
        exact sources
      obtain ⟨final, finalMirrors, outcome, judged⟩ := judgeImports_eq shows tracksOn kept
      refine ⟨final, finalMirrors, outcome, judged.trans ?_⟩
      simp [found, record, checks, ← files, ← sources]

/-- What a run does: it puts what its mode is about into the audit, and it fails in no mode. -/
theorem run_records (shows : picture.Shows disk settings) (tracks : audit.Tracks disk settings)
    (mode : Mode) :
    ∃ codebase : Codebase, codebase.Mirrors disk settings.root settings.extensions ∧
      (audit.run disk mode.name).outcome = .ok (audit.run disk mode.name).audit.isClean ∧
      (audit.run disk mode.name).audit = audit.record picture mode codebase := by
  obtain ⟨rfl, mirrors⟩ := tracks
  obtain ⟨events, surveyed, listed⟩ := shows.surveyed
  have began : Tracks disk audit.settings { audit with mode } := ⟨rfl, mirrors⟩
  obtain ⟨read, readMirrors, readEq⟩ := readFiles_eq shows began
  unfold run
  rw [Mode.ofName?_name]
  simp only [runWith, surveyRules, surveyed, ← listed, readEq]
  exact analyze_records shows ⟨rfl, readMirrors⟩ rfl rfl

/-- How an audit stands after runs in some modes. -/
structure Follows (disk : Disk) (settings : Settings) (picture : Picture) (past : List Mode)
    (audit : Audit) : Prop extends Tracks disk settings audit where
  mode : ∀ last, past.getLast? = some last → audit.mode = last
  files : past ≠ [] → audit.files = picture.files
  sources : past ≠ [] → audit.sources = picture.sources
  reachable : audit.reachable = if past.any Mode.tracesFiles then picture.reachable else []
  unusedFiles : audit.unusedFiles =
    if past.any Mode.tracesFiles then ImportAudit.unusedFiles picture.files picture.reachable else []
  unusedBindings : audit.unusedBindings =
    if past.any Mode.checksImports then picture.bindings else []
  unusedTargets : audit.unusedTargets =
    if past.any Mode.checksImports then picture.targets else []

namespace Follows

variable {past : List Mode}

theorem start (disk : Disk) (settings : Settings) (picture : Picture) :
    Follows disk settings picture [] (.start settings) where
  settings_eq := rfl
  mirrors := .empty disk settings.extensions settings.root_anchor_ne
  mode := by simp
  files := by simp
  sources := by simp
  reachable := rfl
  unusedFiles := rfl
  unusedBindings := rfl
  unusedTargets := rfl

theorem record (follows : Follows disk settings picture past audit) (mode : Mode)
    {codebase : Codebase} (mirrors : codebase.Mirrors disk settings.root settings.extensions) :
    Follows disk settings picture (past ++ [mode]) (audit.record picture mode codebase) where
  settings_eq := follows.settings_eq
  mirrors := mirrors
  mode := by simp [Audit.record]
  files _ := rfl
  sources _ := rfl
  reachable := by
    cases traces : mode.tracesFiles <;> simp [Audit.record, traces, follows.reachable]
  unusedFiles := by
    cases traces : mode.tracesFiles <;> simp [Audit.record, traces, follows.unusedFiles]
  unusedBindings := by
    cases checks : mode.checksImports <;> simp [Audit.record, checks, follows.unusedBindings]
  unusedTargets := by
    cases checks : mode.checksImports <;> simp [Audit.record, checks, follows.unusedTargets]

end Follows

/-- Runs the audit in some modes, one after the other; a run that fails ends it. -/
def runAll (disk : Disk) : List Mode → Audit → Except Fault Audit
  | [], audit => .ok audit
  | mode :: modes, audit => do
      let _ ← (audit.run disk mode.name).outcome
      runAll disk modes (audit.run disk mode.name).audit

theorem runAll_follows (shows : picture.Shows disk settings) {past : List Mode}
    (follows : Follows disk settings picture past audit) (modes : List Mode) :
    ∃ final, audit.runAll disk modes = .ok final ∧
      Follows disk settings picture (past ++ modes) final := by
  -- Each run moves one mode from those to come to those in the past.
  induction modes generalizing past audit with
  | nil => exact ⟨audit, rfl, by simpa using follows⟩
  | cons mode modes ih =>
      obtain ⟨codebase, mirrors, outcome, recorded⟩ :=
        run_records shows follows.toTracks mode
      have next := follows.record mode mirrors
      rw [← recorded] at next
      obtain ⟨final, rest, done⟩ := ih next
      refine ⟨final, ?_, by simpa using done⟩
      rw [runAll, outcome]
      exact rest

/-- What an audit lists is settled by the picture and the last mode. -/
theorem Follows.listing_eq {past : List Mode} {last : Mode}
    (follows : Follows disk settings picture past audit) (ends : past.getLast? = some last) :
    audit.listing = Text.joinLines
      ((if last.tracesFiles then
          [Finding.filesListing settings.root
            (ImportAudit.unusedFiles picture.files picture.reachable)] else []) ++
        (if last.checksImports then
          [Finding.importsListing settings.root picture.bindings picture.targets] else [])) := by
  have member : last ∈ past := List.mem_of_getLast? ends
  have traces : last.tracesFiles = true → past.any Mode.tracesFiles = true := fun held =>
    List.any_eq_true.mpr ⟨last, member, held⟩
  have checks : last.checksImports = true → past.any Mode.checksImports = true := fun held =>
    List.any_eq_true.mpr ⟨last, member, held⟩
  unfold listing
  rw [follows.mode last ends, follows.settings_eq, follows.unusedFiles, follows.unusedBindings,
    follows.unusedTargets]
  cases traced : last.tracesFiles <;> cases checked : last.checksImports <;>
    simp_all

theorem unusedFiles_eq_filter (shows : picture.Shows disk settings) :
    ImportAudit.unusedFiles picture.files picture.reachable =
      picture.files.filter fun file => ¬ settings.Connects disk file := by
  unfold ImportAudit.unusedFiles
  refine List.filter_congr fun file _ => decide_eq_decide.mpr ?_
  rw [shows.reachable]
  exact not_congr Settings.mem_reach_iff_connects

/-- After any runs on a disk that does not change, whatever their modes and their order, an audit
holds what one run of a new audit in mode `all` finds, as far as its own modes are about it, and
nothing else. It lists what a new audit lists after one run in the last of them. -/
theorem runAll_settled (disk : Disk) (settings : Settings) (modes : List Mode)
    (folder : disk.isFolder settings.root = true) (nonempty : modes ≠ []) :
    ∃ events audit fresh latest,
      Survey.events ⟨settings.extensions, settings.ignored⟩ disk settings.root = .ok events ∧
      (start settings).runAll disk modes = .ok audit ∧
      (start settings).runAll disk [.all] = .ok fresh ∧
      (start settings).runAll disk [modes.getLast nonempty] = .ok latest ∧
      audit.files = Survey.files events ∧
      audit.sources.map Source.path = audit.files ∧
      (.files ∈ modes ∨ .all ∈ modes →
        audit.reachable = fresh.reachable ∧ audit.unusedFiles = fresh.unusedFiles ∧
        audit.unusedFiles = audit.files.filter fun file => ¬ settings.Connects disk file) ∧
      (.imports ∈ modes ∨ .all ∈ modes →
        audit.unusedBindings = fresh.unusedBindings ∧
        audit.unusedTargets = fresh.unusedTargets) ∧
      (¬ (.files ∈ modes ∨ .all ∈ modes) → audit.reachable = [] ∧ audit.unusedFiles = []) ∧
      (¬ (.imports ∈ modes ∨ .all ∈ modes) →
        audit.unusedBindings = [] ∧ audit.unusedTargets = []) ∧
      audit.listing = latest.listing := by
  obtain ⟨picture, shows⟩ := Picture.exists_shows folder
  obtain ⟨events, surveyed, listed⟩ := shows.surveyed
  have began := Follows.start disk settings picture
  obtain ⟨audit, ran, follows⟩ := runAll_follows shows began modes
  obtain ⟨fresh, ranAll, freshFollows⟩ := runAll_follows shows began [.all]
  obtain ⟨latest, ranLast, latestFollows⟩ :=
    runAll_follows shows began [modes.getLast nonempty]
  have last : modes.getLast? = some (modes.getLast nonempty) :=
    List.getLast?_eq_some_getLast nonempty
  refine ⟨events, audit, fresh, latest, surveyed, ran, ranAll, ranLast,
    (follows.files nonempty).trans listed, ?_, ?_, ?_, ?_, ?_, ?_⟩
  · rw [follows.sources nonempty, follows.files nonempty]
    exact shows.paths
  · intro traced
    have held := Mode.any_tracesFiles.mpr traced
    refine ⟨?_, ?_, ?_⟩
    · rw [follows.reachable, freshFollows.reachable]
      simp [held, Mode.tracesFiles]
    · rw [follows.unusedFiles, freshFollows.unusedFiles]
      simp [held, Mode.tracesFiles]
    · rw [follows.unusedFiles, follows.files nonempty, ← unusedFiles_eq_filter shows]
      simp [held]
  · intro checked
    have held := Mode.any_checksImports.mpr checked
    refine ⟨?_, ?_⟩
    · rw [follows.unusedBindings, freshFollows.unusedBindings]
      simp [held, Mode.checksImports]
    · rw [follows.unusedTargets, freshFollows.unusedTargets]
      simp [held, Mode.checksImports]
  · intro untraced
    have held : ¬ modes.any Mode.tracesFiles = true := mt Mode.any_tracesFiles.mp untraced
    exact ⟨follows.reachable.trans (if_neg held), follows.unusedFiles.trans (if_neg held)⟩
  · intro unchecked
    have held : ¬ modes.any Mode.checksImports = true := mt Mode.any_checksImports.mp unchecked
    exact ⟨follows.unusedBindings.trans (if_neg held), follows.unusedTargets.trans (if_neg held)⟩
  · exact (follows.listing_eq last).trans (latestFollows.listing_eq List.getLast?_singleton).symm

/-- A file that the entry imports, and one that nothing imports. -/
def strayFile : Disk :=
  (((default : Disk).put (.parse "/c.ts") (Text.Utf8.encode "".toList)).put
    (.parse "/b.ts") (Text.Utf8.encode "export const x = 1".toList)).put
    (.parse "/a.ts") (Text.Utf8.encode "import {x} from './b'".toList)

def strayFileSettings : Settings :=
  { root := .parse "/"
    resolved := ⟨rfl, by decide⟩
    entries := ["a.ts"]
    extensions := [".ts"]
    ignored := [] }

theorem strayFile_settled :
    strayFile.isFolder strayFileSettings.root = true ∧
    ∃ audit, (start strayFileSettings).runAll strayFile [.imports, .files] = .ok audit ∧
      audit.unusedFiles = [.parse "/c.ts"] := by
  have folder : strayFile.isFolder strayFileSettings.root = true := by decide +kernel
  have named : Survey.byName ⟨[".ts"], []⟩ strayFileSettings.root strayFile.entries =
      [("a.ts", [.scanned (.parse "/a.ts")]), ("b.ts", [.scanned (.parse "/b.ts")]),
        ("c.ts", [.scanned (.parse "/c.ts")])] := by decide +kernel
  have surveyed : Survey.events ⟨[".ts"], []⟩ strayFile strayFileSettings.root =
      .ok [.scanned (.parse "/a.ts"), .scanned (.parse "/b.ts"), .scanned (.parse "/c.ts")] := by
    have listed : strayFile.list strayFileSettings.root = .ok strayFile.entries := by decide +kernel
    rw [Survey.events, listed]
    change Except.ok (Survey.inNameOrder (Survey.byName _ _ strayFile.entries)) = _
    rw [named, Survey.inNameOrder, List.mergeSort_of_pairwise (by decide)]
    rfl
  have unused : [Path.parse "/a.ts", .parse "/b.ts", .parse "/c.ts"].filter
      (fun file => ¬ strayFileSettings.Connects strayFile file) = [.parse "/c.ts"] := by
    decide +kernel
  obtain ⟨events, audit, _, _, found, ran, -, -, files, -, fileResults, -⟩ :=
    runAll_settled strayFile strayFileSettings [.imports, .files] folder (by decide)
  obtain rfl := Except.ok.inj (found.symm.trans surveyed)
  refine ⟨folder, audit, ran, ?_⟩
  rw [(fileResults (by decide)).2.2, files]
  exact unused

end Audit
end ImportAudit
