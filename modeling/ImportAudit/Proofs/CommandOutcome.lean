import ImportAudit.Command
import ImportAudit.Proofs.Verdict

/-! What the command answers. Its exit code says whether the analyses that were asked for have found
nothing, and both reports agree with it; how much is printed, and where the report goes, changes neither
the exit code nor the findings. -/
namespace ImportAudit

namespace Audit

/-- The analyses of the audit's mode have found nothing. -/
def FindsNothing (audit : Audit) : Prop :=
  (audit.mode.tracesFiles = true → audit.unusedFiles = []) ∧
    (audit.mode.checksImports = true → audit.unusedBindings = [] ∧ audit.unusedTargets = [])

/-- The total that the report shows. -/
def total (audit : Audit) : Nat :=
  Finding.total audit.unusedFiles audit.unusedBindings audit.unusedTargets

theorem total_eq_zero_iff (audit : Audit) : audit.total = 0 ↔ audit.isClean = true := by
  rw [isClean_iff]
  simp [total, Finding.total, and_assoc]

theorem report_total (audit : Audit) : ∃ before after, audit.report =
    Text.joinLines (before ++ ("**Findings:** " ++ toString audit.total) :: after) :=
  ⟨["# Unused Code Report", "", "**Path:** " ++ Finding.code audit.settings.root.render,
    "**Files analyzed:** " ++ toString audit.files.length], _, rfl⟩

/-- The audit after a first run in a mode. -/
def first (disk : Disk) (settings : Settings) (mode : Mode) : Audit :=
  ((start settings).run disk mode.name).audit

/-- Where the root is a folder, a first run comes to an end, and its verdict is about its own findings
only: nothing was on record before. -/
theorem first_judges {disk : Disk} {settings : Settings} (mode : Mode)
    (folder : disk.isFolder settings.root = true) :
    ((start settings).run disk mode.name).outcome = .ok (first disk settings mode).isClean ∧
      (first disk settings mode).mode = mode ∧
      ((first disk settings mode).isClean = true ↔ (first disk settings mode).FindsNothing) := by
  have ends := ((IsGenuine.start settings).run disk mode.name).2
  rw [Mode.ofName?_name] at ends
  obtain ⟨verdict, ended⟩ : ∃ verdict, ((start settings).run disk mode.name).outcome = .ok verdict := by
    generalize ((start settings).run disk mode.name).outcome = outcome at ends
    cases ends with
    | noFolder _ _ absent =>
        rw [folder] at absent
        cases absent
    | verdict _ clean _ => exact ⟨clean, rfl⟩
  obtain ⟨mode', known, judged⟩ := run_judges ended
  obtain rfl : mode = mode' := Option.some.inj ((Mode.ofName?_name mode).symm.trans known)
  have mode_eq : (first disk settings mode).mode = mode := judged.mode_eq
  refine ⟨ended.trans (congrArg _ judged.verdict_eq), mode_eq, ?_⟩
  rw [isClean_iff, FindsNothing, mode_eq]
  constructor
  · rintro ⟨files, imports⟩
    exact ⟨fun _ => files, fun _ => imports⟩
  · rintro ⟨files, imports⟩
    constructor
    · cases traces : mode.tracesFiles with
      | true => exact files traces
      | false => exact judged.files traces
    · cases checks : mode.checksImports with
      | true => exact imports checks
      | false => exact judged.imports checks

end Audit

/-- A line that is no note. -/
def Line.isStep : Line → Bool
  | .step _ => true
  | .note _ => false

theorem Line.renderAll_step (verbose : Bool) (text : String) (lines : List Line) :
    renderAll verbose (.step text :: lines) = text ++ "\n" ++ renderAll verbose lines :=
  String.join_cons

theorem Line.renderAll_note (verbose : Bool) (event : Event) (lines : List Line) :
    renderAll verbose (.note event :: lines) =
      (if verbose then "   " ++ event.message ++ "\n" else "") ++ renderAll verbose lines :=
  String.join_cons

/-- Without the notes the same is printed as where they are taken out before. -/
theorem Line.renderAll_false (lines : List Line) :
    renderAll false lines = renderAll true (lines.filter isStep) := by
  induction lines with
  | nil => rfl
  | cons line lines ih =>
      cases line with
      | step text =>
          rw [List.filter_cons_of_pos (by rfl), renderAll_step, renderAll_step, ih]
      | note event =>
          rw [List.filter_cons_of_neg Bool.false_ne_true, renderAll_note, ih]
          simp

/-- Whether a file can be written does not depend on its content. -/
theorem Disk.writeAs_iff {disk : Disk} {path shown : Path} (bytes bytes' : Text.Utf8.Bytes) :
    (∃ after, disk.writeAs path shown bytes = .ok after) ↔
      ∃ after, disk.writeAs path shown bytes' = .ok after := by
  unfold writeAs
  split
  · simp
  · simp
  · split <;> simp
  · simp

theorem Disk.put_of_writeAs {disk after : Disk} {path shown : Path} {bytes : Text.Utf8.Bytes}
    (wrote : disk.writeAs path shown bytes = .ok after) : after = disk.put path bytes := by
  unfold writeAs at wrote
  split at wrote
  · exact (Except.ok.inj wrote).symm
  · cases wrote
  · split at wrote
    · exact (Except.ok.inj wrote).symm
    · cases wrote
    · cases wrote
  · cases wrote

namespace Command

variable {disk : Disk} {working : Path} {arguments other : Arguments} {settings : Settings}

/-- The settings of the file, or the default ones. -/
def baseSettings (disk : Disk) (working : Path) (arguments : Arguments) :
    Except Settings.Fault Settings :=
  match given arguments.config with
  | some file => Settings.load disk working (.parse file)
  | none => (Settings.ofRoot working (.parse Settings.defaultRoot)).mapError .disk

/-- Settings in which the arguments have replaced the root and the entry points, where they give them,
and nothing else. -/
structure Overrides (working : Path) (arguments : Arguments) (base settings : Settings) : Prop where
  root : settings.root = ((given arguments.path).map fun path =>
    (working.join (.parse path)).resolve).getD base.root
  entries : settings.entries =
    if arguments.entries = [] then base.entries else arguments.entries.filterMap id
  entryPoints : settings.entryPoints = settings.entries.map fun entry =>
    (settings.root.join (.parse entry)).normalize
  extensions : settings.extensions = base.extensions
  ignored : settings.ignored = base.ignored

/-- The root that the arguments give, or the one of other settings. -/
def rootFor (working : Path) (arguments : Arguments) (base : Settings) :
    Except Settings.Fault { path : Path // path.IsResolved } :=
  match given arguments.path with
  | some path => (Settings.absolute working (.parse path)).mapError .disk
  | none => .ok ⟨base.root, base.resolved⟩

theorem settingsFor_eq (disk : Disk) (working : Path) (arguments : Arguments) :
    settingsFor disk working arguments = (baseSettings disk working arguments).bind fun base =>
      (rootFor working arguments base).map fun root => .under root
        (if arguments.entries.isEmpty then base.entries else arguments.entries.filterMap id)
        base.extensions base.ignored := by
  unfold settingsFor baseSettings rootFor
  cases given arguments.config <;> cases given arguments.path <;> rfl

theorem rootFor_eq_ok_iff {base : Settings} {root : { path : Path // path.IsResolved }} :
    rootFor working arguments base = .ok root ↔
      (∀ path, given arguments.path = some path → Disk.hasNul (.parse path) = false) ∧
      root.val = ((given arguments.path).map fun path =>
        (working.join (.parse path)).resolve).getD base.root := by
  have named : ∀ other : { path : Path // path.IsResolved },
      (.ok other : Except Settings.Fault _) = .ok root ↔ root.val = other.val := by
    intro other
    rw [Except.ok.injEq, Subtype.ext_iff]
    exact eq_comm
  unfold rootFor Settings.absolute
  cases given arguments.path with
  | none => simp [named]
  | some path => cases nul : Disk.hasNul (.parse path) <;> simp [nul, Except.mapError, named]

/-- The settings are built where those of the file are and the path can be one, and are then those with
what the arguments override. -/
theorem settingsFor_eq_ok_iff : settingsFor disk working arguments = .ok settings ↔
    ∃ base, baseSettings disk working arguments = .ok base ∧
      (∀ path, given arguments.path = some path → Disk.hasNul (.parse path) = false) ∧
      Overrides working arguments base settings := by
  rw [settingsFor_eq]
  cases baseSettings disk working arguments with
  | error fault => simp [Except.bind]
  | ok base =>
      simp only [Except.bind, Except.ok.injEq, exists_eq_left']
      constructor
      · intro built
        cases rooted : rootFor working arguments base with
        | error fault =>
            rw [rooted] at built
            cases built
        | ok root =>
            rw [rooted] at built
            obtain rfl := Except.ok.inj built
            obtain ⟨proper, named⟩ := rootFor_eq_ok_iff.mp rooted
            exact ⟨proper, named, by simp [Settings.under], rfl, rfl, rfl⟩
      · rintro ⟨proper, named, entries, -, extensions, ignored⟩
        have rooted : rootFor working arguments base = .ok ⟨settings.root, settings.resolved⟩ :=
          rootFor_eq_ok_iff.mpr ⟨proper, named⟩
        rw [rooted]
        simp only [Except.map, Settings.under, List.isEmpty_iff, ← entries, ← extensions, ← ignored]

/-- The report is not asked for, goes to the screen, or can be written where it is to go. -/
def CanWrite (disk : Disk) (working : Path) (arguments : Arguments) : Prop :=
  arguments.report = true → ∀ output, given arguments.output = some output →
    ∃ after, disk.writeAs (working.join (.parse output)) (.parse output) [] = .ok after

theorem conclude_iff (disk : Disk) (working : Path) (arguments : Arguments) (audit : Audit) :
    (∃ conclusion, conclude disk working arguments audit = .ok conclusion) ↔
      CanWrite disk working arguments := by
  unfold conclude CanWrite
  cases arguments.report with
  | false => exact ⟨fun _ asked => absurd asked (by decide), fun _ => ⟨_, rfl⟩⟩
  | true =>
      cases given arguments.output with
      | none => exact ⟨fun _ _ output named => absurd named (by simp), fun _ => ⟨_, rfl⟩⟩
      | some output =>
          have same := @Disk.writeAs_iff disk (working.join (.parse output)) (.parse output)
            (Text.Utf8.encode audit.report.toList) []
          constructor
          · rintro ⟨conclusion, ended⟩ _ _ ⟨⟩
            apply same.mp
            cases wrote : disk.writeAs (working.join (.parse output)) (.parse output)
                (Text.Utf8.encode audit.report.toList) with
            | error fault => simp [wrote, bind, Except.bind] at ended
            | ok after => exact ⟨after, rfl⟩
          · intro can
            obtain ⟨after, wrote⟩ := same.mpr (can rfl output rfl)
            simp [wrote, bind, Except.bind, pure, Except.pure]

/-- The ways that a command can take, and what each comes to. -/
inductive Course (disk : Disk) (working : Path) (arguments : Arguments) : Except Fault Nat → Prop
  | told {fault : Settings.Fault} (unbuilt : settingsFor disk working arguments = .error fault)
      (told : isTold fault = true) : Course disk working arguments (.ok 1)
  | untold {fault : Settings.Fault} (unbuilt : settingsFor disk working arguments = .error fault)
      (untold : isTold fault = false) : Course disk working arguments (.error (.settings fault))
  | noFolder {settings : Settings} (built : settingsFor disk working arguments = .ok settings)
      (absent : disk.isFolder settings.root = false) : Course disk working arguments (.ok 1)
  | noMode {settings : Settings} (built : settingsFor disk working arguments = .ok settings)
      (folder : disk.isFolder settings.root = true) (withheld : arguments.mode = none) :
      Course disk working arguments (.error (.audit (.unknownMode "[]")))
  | noEntry {settings : Settings} (built : settingsFor disk working arguments = .ok settings)
      (folder : disk.isFolder settings.root = true) (lacks : lacksEntry arguments = true) :
      Course disk working arguments (.error .entryWithheld)
  | unwritten {settings : Settings} {mode : Mode} {fault : Disk.Fault}
      (built : settingsFor disk working arguments = .ok settings)
      (folder : disk.isFolder settings.root = true) (asked : arguments.mode = some mode)
      (complete : lacksEntry arguments = false) (refused : ¬ CanWrite disk working arguments) :
      Course disk working arguments (.error (.output fault))
  | judged {settings : Settings} {mode : Mode}
      (built : settingsFor disk working arguments = .ok settings)
      (folder : disk.isFolder settings.root = true) (asked : arguments.mode = some mode)
      (complete : lacksEntry arguments = false) (written : CanWrite disk working arguments) :
      Course disk working arguments (.ok (exitCode (Audit.first disk settings mode).isClean))

/-- Without a mode nothing is audited. -/
theorem auditWith_none (withheld : arguments.mode = none) :
    auditWith disk working arguments settings = ⟨.error (.audit (.unknownMode "[]")), "", disk⟩ := by
  unfold auditWith modeName
  rw [withheld]
  rfl

theorem auditWith_some {mode : Mode} (folder : disk.isFolder settings.root = true)
    (asked : arguments.mode = some mode) :
    auditWith disk working arguments settings =
      let printed := Line.renderAll arguments.verbose ((Audit.start settings).run disk mode.name).lines
      match conclude disk working arguments (.first disk settings mode) with
      | .error fault => ⟨.error (.output fault), printed, disk⟩
      | .ok (conclusion, after) =>
          ⟨.ok (exitCode (Audit.first disk settings mode).isClean), printed ++ conclusion, after⟩ := by
  have named : modeName arguments = mode.name := by simp [modeName, asked]
  unfold auditWith
  dsimp only
  rw [named, (Audit.first_judges mode folder).1]
  rfl

/-- Where an entry point has no text, the audit goes on until it is needed. -/
theorem auditToEntries_eq (mode : Mode) (folder : disk.isFolder settings.root = true) :
    auditToEntries disk mode arguments settings =
      ⟨.error .entryWithheld, Line.renderAll arguments.verbose ((Audit.start settings).runWith disk mode
        fun audit => ⟨.ok false, audit, [Audit.tracing]⟩).lines, disk⟩ := by
  obtain ⟨events, surveyed, -⟩ := Survey.events_of_isFolder
    { Audit.start settings with mode }.surveyRules settings.resolved.2 folder
  have ended : ((Audit.start settings).runWith disk mode
      fun audit => ⟨.ok false, audit, [Audit.tracing]⟩).outcome = .ok false := by
    unfold Audit.runWith
    dsimp only
    split
    · rename_i fault stopped
      cases stopped.symm.trans surveyed
    · rfl
  unfold auditToEntries
  dsimp only
  rw [ended]

theorem runWith_course (disk : Disk) (working : Path) (arguments : Arguments) :
    Course disk working arguments (runWith disk working arguments).result := by
  unfold runWith
  cases built : settingsFor disk working arguments with
  | error fault =>
      dsimp only
      cases told : isTold fault with
      | true => exact .told built told
      | false => exact .untold built told
  | ok settings =>
      dsimp only
      cases folder : disk.isFolder settings.root with
      | false => exact .noFolder built folder
      | true =>
          rw [if_pos rfl]
          cases asked : arguments.mode with
          | none =>
              dsimp only
              rw [auditWith_none asked]
              exact .noMode built folder asked
          | some mode =>
              dsimp only
              cases lacks : lacksEntry arguments with
              | true =>
                  rw [if_pos rfl, auditToEntries_eq mode folder]
                  exact .noEntry built folder lacks
              | false =>
                  rw [if_neg (by decide), auditWith_some folder asked]
                  have writes := conclude_iff disk working arguments (.first disk settings mode)
                  cases written : conclude disk working arguments (.first disk settings mode) with
                  | error fault =>
                      refine .unwritten built folder asked lacks fun can => ?_
                      obtain ⟨conclusion, ended⟩ := writes.mpr can
                      cases written.symm.trans ended
                  | ok conclusion => exact .judged built folder asked lacks (writes.mp ⟨_, written⟩)

/-- The exit code of the process: a command that breaks off has failed. -/
def Outcome.status (outcome : Outcome) : Nat := outcome.result.toOption.getD 1

/-- The settings are built, the root is a folder, and the analyses of the mode find nothing there. -/
def Passes (disk : Disk) (working : Path) (arguments : Arguments) : Prop :=
  ∃ settings mode, settingsFor disk working arguments = .ok settings ∧
    disk.isFolder settings.root = true ∧ arguments.mode = some mode ∧
    (Audit.first disk settings mode).FindsNothing

/-- The command breaks off: over settings whose fault it does not tell, over an entry point without a text
where it needs one, or over a report that cannot be written. -/
def BreaksOff (disk : Disk) (working : Path) (arguments : Arguments) : Prop :=
  (∃ fault, settingsFor disk working arguments = .error fault ∧ isTold fault = false) ∨
    ∃ settings, settingsFor disk working arguments = .ok settings ∧
      disk.isFolder settings.root = true ∧
      (lacksEntry arguments = true ∨ arguments.mode ≠ none ∧ ¬ CanWrite disk working arguments)

/-- The audit that the command reports on, if it comes so far. -/
def audited? (disk : Disk) (working : Path) (arguments : Arguments) : Option Audit :=
  match settingsFor disk working arguments, arguments.mode with
  | .ok settings, some mode =>
      if disk.isFolder settings.root && !lacksEntry arguments then some (.first disk settings mode)
      else none
  | _, _ => none

/-- Arguments that differ at most in what is printed and where the report goes. -/
structure SameRequest (arguments other : Arguments) : Prop where
  path : arguments.path = other.path
  entries : arguments.entries = other.entries
  config : arguments.config = other.config
  mode : arguments.mode = other.mode

theorem exitCode_eq_zero_iff (passed : Bool) : exitCode passed = 0 ↔ passed = true := by
  cases passed <;> decide

theorem passes_iff {mode : Mode} (built : settingsFor disk working arguments = .ok settings)
    (folder : disk.isFolder settings.root = true) (asked : arguments.mode = some mode) :
    Passes disk working arguments ↔ (Audit.first disk settings mode).isClean = true := by
  rw [(Audit.first_judges mode folder).2.2]
  constructor
  · rintro ⟨settings', mode', built', -, asked', nothing⟩
    obtain rfl : settings = settings' := Except.ok.inj (built.symm.trans built')
    obtain rfl : mode = mode' := Option.some.inj (asked.symm.trans asked')
    exact nothing
  · intro nothing
    exact ⟨settings, mode, built, folder, asked, nothing⟩

/-- The exit code, unless the command breaks off. -/
theorem status_iff (whole : ¬ BreaksOff disk working arguments) :
    ((runWith disk working arguments).status = 0 ↔ Passes disk working arguments) ∧
      ((runWith disk working arguments).status = 1 ↔ ¬ Passes disk working arguments) := by
  have course := runWith_course disk working arguments
  unfold Outcome.status
  generalize (runWith disk working arguments).result = result at course
  cases course with
  | told unbuilt _ =>
      have fails : ¬ Passes disk working arguments := by
        rintro ⟨settings, mode, built, -⟩
        cases unbuilt.symm.trans built
      simp [Except.toOption, fails]
  | untold unbuilt untold => exact absurd (.inl ⟨_, unbuilt, untold⟩) whole
  | noFolder built absent =>
      have fails : ¬ Passes disk working arguments := by
        rintro ⟨settings, mode, built', folder, -⟩
        obtain rfl := Except.ok.inj (built.symm.trans built')
        rw [absent] at folder
        cases folder
      simp [Except.toOption, fails]
  | noMode built folder withheld =>
      have fails : ¬ Passes disk working arguments := by
        rintro ⟨settings, mode, -, -, asked, -⟩
        cases withheld.symm.trans asked
      simp [Except.toOption, fails]
  | noEntry built folder lacks => exact absurd (.inr ⟨_, built, folder, .inl lacks⟩) whole
  | unwritten built folder asked _ refused =>
      exact absurd (.inr ⟨_, built, folder, .inr ⟨by simp [asked], refused⟩⟩) whole
  | @judged settings mode built folder asked _ _ =>
      rw [passes_iff built folder asked]
      cases (Audit.first disk settings mode).isClean <;> simp [Except.toOption, exitCode]

/-- The command has no exit code of its own where it breaks off, or where the mode was withheld. -/
theorem error_iff : (∃ fault, (runWith disk working arguments).result = .error fault) ↔
    BreaksOff disk working arguments ∨ arguments.mode = none ∧
      ∃ settings, settingsFor disk working arguments = .ok settings ∧
        disk.isFolder settings.root = true := by
  have course := runWith_course disk working arguments
  constructor
  · rintro ⟨fault, failed⟩
    rw [failed] at course
    cases course with
    | untold unbuilt untold => exact .inl (.inl ⟨_, unbuilt, untold⟩)
    | noMode built folder withheld => exact .inr ⟨withheld, _, built, folder⟩
    | noEntry built folder lacks => exact .inl (.inr ⟨_, built, folder, .inl lacks⟩)
    | unwritten built folder asked _ refused =>
        exact .inl (.inr ⟨_, built, folder, .inr ⟨by simp [asked], refused⟩⟩)
  · intro breaks
    generalize (runWith disk working arguments).result = result at course
    cases course with
    | untold | noMode | noEntry | unwritten => exact ⟨_, rfl⟩
    | told unbuilt told =>
        rcases breaks with (⟨fault, unbuilt', untold⟩ | ⟨settings, built, -⟩) | ⟨-, settings, built, -⟩
        · obtain rfl := Except.error.inj (unbuilt.symm.trans unbuilt')
          rw [told] at untold
          cases untold
        · cases unbuilt.symm.trans built
        · cases unbuilt.symm.trans built
    | noFolder built absent =>
        have absent : ∀ {settings}, settingsFor disk working arguments = .ok settings →
            disk.isFolder settings.root = false := by
          intro settings built'
          rwa [← Except.ok.inj (built.symm.trans built')]
        rcases breaks with
          (⟨fault, unbuilt, -⟩ | ⟨settings, built', folder, -⟩) | ⟨-, settings, built', folder⟩
        · cases unbuilt.symm.trans built
        · cases (absent built').symm.trans folder
        · cases (absent built').symm.trans folder
    | judged built folder asked complete written =>
        rcases breaks with (⟨fault, unbuilt, -⟩ | ⟨settings, -, -, lacks | ⟨-, refused⟩⟩) | ⟨withheld, -⟩
        · cases unbuilt.symm.trans built
        · cases complete.symm.trans lacks
        · exact absurd written refused
        · cases withheld.symm.trans asked

/-- The command comes so far as to report on an audit where it does not stop before. -/
theorem audited?_eq_some {audit : Audit} : audited? disk working arguments = some audit ↔
    ∃ settings mode, settingsFor disk working arguments = .ok settings ∧
      disk.isFolder settings.root = true ∧ arguments.mode = some mode ∧
      lacksEntry arguments = false ∧ Audit.first disk settings mode = audit := by
  unfold audited?
  cases settingsFor disk working arguments with
  | error fault => simp
  | ok settings => cases arguments.mode <;> simp [and_assoc]

theorem runWith_audited {mode : Mode} (built : settingsFor disk working arguments = .ok settings)
    (folder : disk.isFolder settings.root = true) (asked : arguments.mode = some mode)
    (complete : lacksEntry arguments = false) :
    runWith disk working arguments = auditWith disk working arguments settings := by
  unfold runWith
  rw [built]
  dsimp only
  rw [if_pos folder, asked]
  dsimp only
  rw [complete, if_neg (by decide)]

/-- A report that can be written does not change the exit code. -/
theorem auditWith_written {mode : Mode} (folder : disk.isFolder settings.root = true)
    (asked : arguments.mode = some mode) (written : CanWrite disk working arguments) :
    (auditWith disk working arguments settings).result =
      .ok (exitCode (Audit.first disk settings mode).isClean) := by
  obtain ⟨conclusion, ended⟩ := (conclude_iff _ _ _ (.first disk settings mode)).mpr written
  rw [auditWith_some folder asked, ended]

/-- What an audit says in its two reports agrees with the exit code. -/
theorem reports_agree {audit : Audit} (reached : audited? disk working arguments = some audit) :
    (audit.total = 0 ↔ audit.listing = audit.mode.emptyListing) ∧
      (CanWrite disk working arguments →
        ((runWith disk working arguments).result = .ok 0 ↔ audit.total = 0)) := by
  obtain ⟨settings, mode, built, folder, asked, complete, rfl⟩ := audited?_eq_some.mp reached
  have clean := (Audit.first_judges mode folder).2.2
  rw [Audit.total_eq_zero_iff]
  refine ⟨clean.trans (Audit.listing_eq_iff _).symm, fun written => ?_⟩
  rw [runWith_audited built folder asked complete, auditWith_written folder asked written, Except.ok.injEq]
  exact exitCode_eq_zero_iff _

/-- What the command prints ends with the listing or the report of the audit, or the report is put where it
is to go. -/
theorem reports_shown {audit : Audit} (reached : audited? disk working arguments = some audit) :
    (arguments.report = false →
      ∃ log, (runWith disk working arguments).printed = log ++ audit.summary) ∧
    (arguments.report = true → given arguments.output = none →
      ∃ log, (runWith disk working arguments).printed = log ++ ("\n" ++ audit.report ++ "\n")) ∧
    (CanWrite disk working arguments → arguments.report = true →
      ∀ output, given arguments.output = some output → (runWith disk working arguments).disk =
        disk.put (working.join (.parse output)) (Text.Utf8.encode audit.report.toList)) := by
  obtain ⟨settings, mode, built, folder, asked, complete, rfl⟩ := audited?_eq_some.mp reached
  rw [runWith_audited built folder asked complete, auditWith_some folder asked]
  refine ⟨?_, ?_, ?_⟩
  · intro silent
    have ended : conclude disk working arguments (.first disk settings mode) =
        .ok ((Audit.first disk settings mode).summary, disk) := by
      simp [conclude, silent, pure, Except.pure]
    rw [ended]
    exact ⟨_, rfl⟩
  · intro report shown
    have ended : conclude disk working arguments (.first disk settings mode) =
        .ok ("\n" ++ (Audit.first disk settings mode).report ++ "\n", disk) := by
      simp [conclude, report, shown, pure, Except.pure]
    rw [ended]
    exact ⟨_, rfl⟩
  · intro can report output named
    obtain ⟨after, wrote⟩ := (Disk.writeAs_iff
      (Text.Utf8.encode (Audit.first disk settings mode).report.toList) []).mpr (can report output named)
    have ended : conclude disk working arguments (.first disk settings mode) =
        .ok ("\n📄 Report written to: " ++ output ++ "\n", after) := by
      simp [conclude, report, named, wrote, bind, Except.bind, pure, Except.pure]
    rw [ended]
    exact Disk.put_of_writeAs wrote

theorem SameRequest.settingsFor_eq (same : SameRequest arguments other) :
    settingsFor disk working arguments = settingsFor disk working other := by
  unfold settingsFor
  rw [same.path, same.entries, same.config]

theorem SameRequest.lacksEntry_eq (same : SameRequest arguments other) :
    lacksEntry arguments = lacksEntry other := by
  unfold lacksEntry
  rw [same.entries, same.mode]

theorem SameRequest.audited?_eq (same : SameRequest arguments other) :
    audited? disk working arguments = audited? disk working other := by
  unfold audited?
  rw [same.settingsFor_eq, same.mode, same.lacksEntry_eq]

theorem SameRequest.result_eq (same : SameRequest arguments other)
    (written : CanWrite disk working arguments) (written' : CanWrite disk working other) :
    (runWith disk working arguments).result = (runWith disk working other).result := by
  unfold runWith
  rw [same.settingsFor_eq, same.lacksEntry_eq, same.mode]
  cases settingsFor disk working other with
  | error fault => rfl
  | ok settings =>
      dsimp only
      cases folder : disk.isFolder settings.root with
      | false => rfl
      | true =>
          rw [if_pos rfl, if_pos rfl]
          cases asked : other.mode with
          | none =>
              dsimp only
              rw [auditWith_none (same.mode.trans asked), auditWith_none asked]
          | some mode =>
              dsimp only
              cases lacksEntry other with
              | true =>
                  rw [if_pos rfl, if_pos rfl, auditToEntries_eq mode folder, auditToEntries_eq mode folder]
              | false =>
                  rw [if_neg (by decide), if_neg (by decide), auditWith_written folder asked written',
                    auditWith_written folder (same.mode.trans asked) written]

/-- Outcomes that differ at most in the notes on the run, which are printed where they are asked for. -/
def DifferInNotes (outcomes : Bool → Outcome) : Prop :=
  ∃ result lines ending after, ∀ verbose,
    outcomes verbose = ⟨result, Line.renderAll verbose lines ++ ending, after⟩

namespace DifferInNotes

theorem const (outcome : Outcome) : DifferInNotes fun _ => outcome := by
  refine ⟨outcome.result, [], outcome.printed, outcome.disk, fun verbose => ?_⟩
  change _ = Outcome.mk _ ("" ++ _) _
  rw [String.empty_append]

theorem lines (result : Except Fault Nat) (lines : List Line) (after : Disk) :
    DifferInNotes fun verbose => ⟨result, Line.renderAll verbose lines, after⟩ :=
  ⟨result, lines, "", after, fun verbose => by rw [String.append_empty]⟩

end DifferInNotes

theorem runWith_differ (disk : Disk) (working : Path) (arguments : Arguments) :
    DifferInNotes fun verbose => runWith disk working { arguments with verbose } := by
  have settings_eq : ∀ verbose, settingsFor disk working { arguments with verbose } =
      settingsFor disk working arguments := fun _ => rfl
  have lacks_eq : ∀ verbose, lacksEntry { arguments with verbose } = lacksEntry arguments :=
    fun _ => rfl
  unfold runWith
  simp only [settings_eq, lacks_eq]
  cases settingsFor disk working arguments with
  | error fault => exact .const _
  | ok settings =>
      dsimp only
      cases folder : disk.isFolder settings.root with
      | false => exact .const _
      | true =>
          simp only [if_true]
          cases asked : arguments.mode with
          | none =>
              have silent : ∀ verbose, auditWith disk working { arguments with mode := none, verbose }
                  settings = ⟨.error (.audit (.unknownMode "[]")), "", disk⟩ := fun _ => auditWith_none rfl
              simp only [silent]
              exact .const _
          | some mode =>
              cases lacksEntry arguments with
              | true =>
                  simp only [if_true, auditToEntries_eq mode folder]
                  exact .lines _ _ _
              | false =>
                  have audited : ∀ verbose,
                      auditWith disk working { arguments with mode := some mode, verbose } settings = _ :=
                    fun _ => auditWith_some folder rfl
                  have concluded : ∀ verbose, conclude disk working
                      { arguments with mode := some mode, verbose } (.first disk settings mode) =
                        conclude disk working arguments (.first disk settings mode) := fun _ => rfl
                  simp only [Bool.false_eq_true, if_false, audited, concluded]
                  cases conclude disk working arguments (.first disk settings mode) with
                  | error fault => exact .lines _ _ _
                  | ok conclusion => exact ⟨_, _, conclusion.1, conclusion.2, fun _ => rfl⟩

/-- The exit code is 0 where the settings are built, the root is a folder and the analyses asked for find
nothing, and 1 elsewhere, unless the command breaks off. Where it comes to report on an audit, the total of
the report is 0, the listing lists nothing and the exit code is 0, or none of this holds. How much is
printed, and where the report goes, changes neither the exit code nor the audit: with the notes left out, it
prints what it prints if they are not asked for. The arguments replace the root and the entry points of the
settings and nothing else. -/
theorem runWith_answers (disk : Disk) (working : Path) (arguments : Arguments) :
    (¬ BreaksOff disk working arguments →
      ((runWith disk working arguments).status = 0 ↔ Passes disk working arguments) ∧
      ((runWith disk working arguments).status = 1 ↔ ¬ Passes disk working arguments)) ∧
    ((∃ fault, (runWith disk working arguments).result = .error fault) ↔
      BreaksOff disk working arguments ∨ arguments.mode = none ∧
        ∃ settings, settingsFor disk working arguments = .ok settings ∧
          disk.isFolder settings.root = true) ∧
    (∀ audit, audited? disk working arguments = some audit →
      (∃ before after, audit.report =
        Text.joinLines (before ++ ("**Findings:** " ++ toString audit.total) :: after)) ∧
      ((audit.total = 0 ↔ audit.listing = audit.mode.emptyListing) ∧
        (CanWrite disk working arguments →
          ((runWith disk working arguments).result = .ok 0 ↔ audit.total = 0))) ∧
      (arguments.report = false →
        ∃ log, (runWith disk working arguments).printed = log ++ audit.summary) ∧
      (arguments.report = true → given arguments.output = none →
        ∃ log, (runWith disk working arguments).printed = log ++ ("\n" ++ audit.report ++ "\n")) ∧
      (CanWrite disk working arguments → arguments.report = true →
        ∀ output, given arguments.output = some output → (runWith disk working arguments).disk =
          disk.put (working.join (.parse output)) (Text.Utf8.encode audit.report.toList))) ∧
    (∀ other, SameRequest arguments other → audited? disk working arguments = audited? disk working other ∧
      (CanWrite disk working arguments → CanWrite disk working other →
        (runWith disk working arguments).result = (runWith disk working other).result)) ∧
    (∃ result lines ending after,
      runWith disk working { arguments with verbose := true } =
        ⟨result, Line.renderAll true lines ++ ending, after⟩ ∧
      runWith disk working { arguments with verbose := false } =
        ⟨result, Line.renderAll true (lines.filter Line.isStep) ++ ending, after⟩) ∧
    ∀ settings, settingsFor disk working arguments = .ok settings ↔
      ∃ base, baseSettings disk working arguments = .ok base ∧
        (∀ path, given arguments.path = some path → Disk.hasNul (.parse path) = false) ∧
        Overrides working arguments base settings := by
  refine ⟨status_iff, error_iff, fun audit reached => ?_, fun other same => ?_, ?_,
    fun settings => settingsFor_eq_ok_iff⟩
  · exact ⟨audit.report_total, reports_agree reached, reports_shown reached⟩
  · exact ⟨same.audited?_eq, same.result_eq⟩
  · obtain ⟨result, lines, ending, after, outcomes⟩ := runWith_differ disk working arguments
    refine ⟨result, lines, ending, after, outcomes true, ?_⟩
    rw [← Line.renderAll_false]
    exact outcomes false

/-- A file that imports in vain is no unused file: asked about files, the command passes, and a report on the
screen with all notes does not change that. -/
theorem selfImport_answers :
    let quiet : Arguments := ⟨some "/", [some "a.ts"], none, some .files, false, none, false⟩
    let loud : Arguments := { quiet with report := true, verbose := true }
    ¬ BreaksOff Audit.selfImport (.parse "/") quiet ∧
      Passes Audit.selfImport (.parse "/") quiet ∧
      (runWith Audit.selfImport (.parse "/") loud).result = .ok 0 := by
  intro quiet loud
  have passed : (runWith Audit.selfImport (.parse "/") quiet).result = .ok 0 := by decide +kernel
  obtain ⟨exits, breaks, -, alike, -⟩ := runWith_answers Audit.selfImport (.parse "/") quiet
  have whole : ¬ BreaksOff Audit.selfImport (.parse "/") quiet := by
    intro off
    obtain ⟨fault, failed⟩ := breaks.mpr (.inl off)
    cases passed.symm.trans failed
  have same : SameRequest quiet loud := ⟨rfl, rfl, rfl, rfl⟩
  refine ⟨whole, (exits whole).1.mp ?_, ?_⟩
  · unfold Outcome.status
    rw [passed]
    rfl
  · rw [← (alike loud same).2 nofun fun _ => nofun]
    exact passed

end Command
end ImportAudit
